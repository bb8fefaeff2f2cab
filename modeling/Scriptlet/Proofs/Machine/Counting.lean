import Scriptlet.Proofs.Machine.Heap
import Scriptlet.Proofs.Machine.Instruction

namespace Scriptlet

/-- The fault of a slot whose object is gone. -/
def Fault.Dangles (fault : Fault) : Prop := ∃ id, fault = .dangling id

namespace Machine

/-- Every slot holds the handle of a live object, and every live object counts its slots. -/
structure Counted (m : Machine) : Prop where
  sound : m.heap.Sound
  live : ∀ handle ∈ m.stack, (m.heap.get? handle).isSome
  exact : ∀ handle object, m.heap.get? handle = some object →
    object.count = m.stack.count handle ∧ 1 ≤ object.count

namespace Counted

variable {m : Machine}

theorem load (code : List UInt8) (output : Output) : (Machine.load code output).Counted :=
  ⟨Heap.sound_empty, fun _ hmem => absurd hmem List.not_mem_nil, fun _ _ hg => nomatch hg⟩

/-- Only the stack and the heap matter. -/
theorem congr (hm : m.Counted) {m' : Machine} (hs : m'.stack = m.stack)
    (hh : m'.heap = m.heap) : m'.Counted := by
  refine ⟨by rw [hh]; exact hm.sound, ?_, ?_⟩
  · rw [hs, hh]
    exact hm.live
  · rw [hs, hh]
    exact hm.exact

theorem exists_object (hm : m.Counted) {handle : Handle} (hmem : handle ∈ m.stack) :
    ∃ object, m.heap.get? handle = some object :=
  Option.isSome_iff_exists.mp (hm.live handle hmem)

theorem pushValue (hm : m.Counted) (value : Int64) : (m.pushValue value).Counted := by
  have hnew : (⟨m.heap.nextId⟩ : Handle) ∉ m.stack := by
    intro hmem
    obtain ⟨object, ho⟩ := hm.exists_object hmem
    exact Nat.lt_irrefl _ (hm.sound.id_lt ho)
  have hget (other : Handle) : (m.pushValue value).heap.get? other =
      if other = ⟨m.heap.nextId⟩ then some ⟨value, 1⟩ else m.heap.get? other :=
    Heap.get?_allocate value other
  refine ⟨hm.sound.allocate value, fun handle hmem => ?_, fun handle object hg => ?_⟩
  · rw [hget]
    split
    · rfl
    · rename_i hne
      exact hm.live handle ((List.mem_cons.mp hmem).resolve_left hne)
  · change _ = (⟨m.heap.nextId⟩ :: m.stack).count handle ∧ _
    rw [hget] at hg
    split at hg
    · rename_i heq
      cases hg
      rw [heq, List.count_cons_self, List.count_eq_zero_of_not_mem hnew]
      exact ⟨rfl, Nat.le_refl _⟩
    · rename_i hne
      rw [List.count_cons_of_ne (Ne.symm hne)]
      exact hm.exact handle object hg

/-- Popping always finds the object of the top slot, and leaves the values of the other slots. -/
theorem pop (hm : m.Counted) {handle : Handle} {rest : List Handle}
    (hs : m.stack = handle :: rest) :
    ∃ object heap, m.heap.get? handle = some object ∧
      Action.pop m = .ok object.value { m with stack := rest, heap } ∧
      { m with stack := rest, heap }.Counted ∧
      ∀ other ∈ rest, (heap.get? other).map (·.value) = (m.heap.get? other).map (·.value) := by
  have hheld : handle ∈ m.stack := hs ▸ List.mem_cons_self
  obtain ⟨object, ho⟩ := hm.exists_object hheld
  obtain ⟨heap, hr, hsound, -, hget⟩ := Heap.release?_spec hm.sound ho
  obtain ⟨hcount, hpos⟩ := hm.exact handle object ho
  rw [hs, List.count_cons_self] at hcount
  -- The object stays exactly if a slot below holds the handle too.
  have hreleased : object.released? =
      if handle ∈ rest then some { object with count := rest.count handle } else none := by
    rw [Object.released?, hcount]
    by_cases hmem : handle ∈ rest
    · have hmore : 1 ≤ rest.count handle := List.one_le_count_iff.mpr hmem
      rw [if_pos hmem, if_neg (by omega), Nat.add_sub_cancel]
    · rw [if_neg hmem, List.count_eq_zero_of_not_mem hmem, if_pos (Nat.le_refl _)]
  have hrun : Action.pop m = .ok object.value { m with stack := rest, heap } := by
    simp only [Action.pop, get_bind_run, hs, modify_bind_run, hr]
    rfl
  refine ⟨object, heap, ho, hrun, ⟨hsound, fun other hmem => ?_, fun other object' hg => ?_⟩, ?_⟩
  · change (heap.get? other).isSome
    rw [hget]
    by_cases heq : other = handle
    · -- A slot below holds the handle too, so the object has been kept.
      subst heq
      rw [if_pos rfl, hreleased, if_pos hmem]
      rfl
    · rw [if_neg heq]
      exact hm.live other (by rw [hs]; exact List.mem_cons_of_mem _ hmem)
  · change heap.get? other = some object' at hg
    rw [hget] at hg
    by_cases heq : other = handle
    · subst heq
      rw [if_pos rfl, hreleased] at hg
      split at hg
      · rename_i hmem
        cases hg
        exact ⟨rfl, List.one_le_count_iff.mpr hmem⟩
      · cases hg
    · rw [if_neg heq] at hg
      have hexact := hm.exact other object' hg
      rwa [hs, List.count_cons_of_ne (Ne.symm heq)] at hexact
  · intro other hmem
    rw [hget]
    by_cases heq : other = handle
    · subst heq
      rw [if_pos rfl, hreleased, if_pos hmem, ho]
      rfl
    · rw [if_neg heq]

/-- Sharing the top slot's object leaves every value. -/
theorem pushShared (hm : m.Counted) {handle : Handle} (hmem : handle ∈ m.stack) :
    ∃ heap, Action.pushShared handle m = .ok () { m with stack := handle :: m.stack, heap } ∧
      { m with stack := handle :: m.stack, heap }.Counted ∧
      ∀ other, (heap.get? other).map (·.value) = (m.heap.get? other).map (·.value) := by
  obtain ⟨object, ho⟩ := hm.exists_object hmem
  obtain ⟨heap, hr, hsound, -, hget⟩ := Heap.retain?_spec hm.sound ho
  have hrun : Action.pushShared handle m = .ok () { m with stack := handle :: m.stack, heap } := by
    simp only [Action.pushShared, get_bind_run, hr]
    rfl
  refine ⟨heap, hrun, ⟨hsound, fun other hother => ?_, fun other object' hg => ?_⟩, fun other => ?_⟩
  · change (heap.get? other).isSome
    rw [hget]
    split
    · rfl
    · rename_i hne
      exact hm.live other ((List.mem_cons.mp hother).resolve_left hne)
  · change heap.get? other = some object' at hg
    change _ = (handle :: m.stack).count other ∧ _
    rw [hget] at hg
    split at hg
    · rename_i heq
      cases hg
      rw [heq, List.count_cons_self, (hm.exact handle object ho).1]
      exact ⟨rfl, Nat.le_add_left _ _⟩
    · rename_i hne
      rw [List.count_cons_of_ne (Ne.symm hne)]
      exact hm.exact other object' hg
  · rw [hget]
    split
    · rename_i heq
      rw [heq, ho]
      rfl
    · rfl

/-- Each slot is counted once. -/
theorem references_eq (hm : m.Counted) : m.heap.references = m.stack.length := by
  have hcounts := hm.sound.references_eq_sum fun handle object ho => (hm.exact handle object ho).1
  -- The objects of the heap are those that the stack has handles of, each once.
  have hkeys : (m.heap.objects.map (·.1)).Perm m.stack.dedup := by
    rw [List.perm_ext_iff_of_nodup hm.sound.nodup m.stack.nodup_dedup]
    intro handle
    rw [List.mem_dedup, Heap.mem_keys_iff]
    constructor
    · intro hsome
      obtain ⟨object, ho⟩ := Option.isSome_iff_exists.mp hsome
      obtain ⟨hcount, hpos⟩ := hm.exact handle object ho
      exact List.one_le_count_iff.mp (by omega)
    · exact hm.live handle
  rw [hcounts, (hkeys.map _).sum_eq, List.sum_map_count_dedup_eq_length]

end Counted

end Machine

namespace Action

/-- The action leaves counts exact, and all it raises is faults of these. -/
def Keeps (raises : Fault → Prop) {α : Type} (x : Action α) : Prop :=
  ∀ m : Machine, m.Counted → (stateAfter (x m)).Counted ∧
    ∀ d m', x m = .error d m' → raises d.fault

/-- The action does nothing to the machine but through `pushValue`, `pop` and `peek`, though it may
look at all of it, go on after a fault and raise such faults itself. -/
inductive Confined (raises : Fault → Prop) : {α : Type} → Action α → Prop
  | pushValue (value : Int64) : Confined raises (pushValue value)
  | pop : Confined raises pop
  | peek : Confined raises peek
  | get : Confined raises get
  | pure {α : Type} (a : α) : Confined raises (pure a : Action α)
  | throw {α : Type} (d : Diagnostic) (h : raises d.fault) : Confined raises (throw d : Action α)
  | bind {α β : Type} {x : Action α} {f : α → Action β} (hx : Confined raises x)
      (hf : ∀ a, Confined raises (f a)) : Confined raises (x >>= f)
  | tryCatch {α : Type} {x : Action α} {f : Diagnostic → Action α} (hx : Confined raises x)
      (hf : ∀ d, raises d.fault → Confined raises (f d)) : Confined raises (tryCatch x f)

namespace Keeps

variable {raises : Fault → Prop} {α β : Type}

theorem of_ok {x : Action α} (hx : x.Keeps raises) {m m' : Machine} {a : α} (hm : m.Counted)
    (h : x m = .ok a m') : m'.Counted := by
  have hs := (hx m hm).1
  rwa [h] at hs

theorem of_error {x : Action α} (hx : x.Keeps raises) {m m' : Machine} {d : Diagnostic}
    (hm : m.Counted) (h : x m = .error d m') : m'.Counted ∧ raises d.fault := by
  have hs := hx m hm
  rw [h] at hs
  exact ⟨hs.1, hs.2 d m' rfl⟩

/-- From the machine `m` the action comes to one with exact counts, and raises none but these. -/
theorem at_ok {x : Action α} {m m' : Machine} {a : α} (hrun : x m = .ok a m') (hm' : m'.Counted) :
    (stateAfter (x m)).Counted ∧ ∀ d m'', x m = .error d m'' → raises d.fault := by
  rw [hrun]
  refine ⟨hm', ?_⟩
  rintro _ _ ⟨⟩

theorem at_error {x : Action α} {m m' : Machine} {d : Diagnostic} (hrun : x m = .error d m')
    (hm' : m'.Counted) (hd : raises d.fault) :
    (stateAfter (x m)).Counted ∧ ∀ d' m'', x m = .error d' m'' → raises d'.fault := by
  rw [hrun]
  refine ⟨hm', ?_⟩
  rintro _ _ ⟨⟩
  exact hd

theorem pure (a : α) : Keeps raises (pure a : Action α) :=
  fun _ hm => at_ok rfl hm

theorem throw {d : Diagnostic} (h : raises d.fault) : Keeps raises (throw d : Action α) :=
  fun _ hm => at_error rfl hm h

theorem bind {x : Action α} {f : α → Action β} (hx : x.Keeps raises)
    (hf : ∀ a, (f a).Keeps raises) : Keeps raises (x >>= f) := by
  intro m hm
  cases h : x m with
  | ok a m' =>
    rw [bind_run_ok h]
    exact hf a m' (hx.of_ok hm h)
  | error d m' =>
    obtain ⟨hm', hd⟩ := hx.of_error hm h
    exact at_error (bind_run_error h) hm' hd

theorem get {f : Machine → Action β} (hf : ∀ m, (f m).Keeps raises) : Keeps raises (get >>= f) :=
  fun m hm => hf m m hm

theorem tryCatch {x : Action α} {f : Diagnostic → Action α} (hx : x.Keeps raises)
    (hf : ∀ d, raises d.fault → (f d).Keeps raises) : Keeps raises (tryCatch x f) := by
  intro m hm
  cases h : x m with
  | ok a m' =>
    exact at_ok (tryCatch_run_ok h) (hx.of_ok hm h)
  | error d m' =>
    rw [tryCatch_run_error h]
    obtain ⟨hm', hd⟩ := hx.of_error hm h
    exact hf d hd m' hm'

theorem fail {fault : Fault} (h : raises fault) : Keeps raises (fail fault : Action α) :=
  .get fun _ => .throw h

/-- A change to anything but the stack and the heap. -/
theorem modify {f : Machine → Machine} (hs : ∀ m, (f m).stack = m.stack)
    (hh : ∀ m, (f m).heap = m.heap) : Keeps raises (modify f : Action PUnit) :=
  fun m hm => at_ok rfl (hm.congr (hs m) (hh m))

theorem pushValue (value : Int64) : Keeps raises (Action.pushValue value) :=
  fun m hm => at_ok (pushValue_run value m) (hm.pushValue value)

theorem skip : Keeps raises Action.skip := .modify (fun _ => rfl) (fun _ => rfl)

variable (hr : ∀ fault : Fault, ¬ fault.Dangles → raises fault)
include hr

theorem pop : Keeps raises Action.pop := by
  intro m hm
  cases hs : m.stack with
  | nil => exact at_error (pop_nil hs) hm (hr _ (by rintro ⟨_, ⟨⟩⟩))
  | cons handle rest =>
    obtain ⟨object, heap, -, hrun, hcounted, -⟩ := hm.pop hs
    exact at_ok hrun hcounted

theorem peek : Keeps raises Action.peek := by
  apply Keeps.get
  intro m
  split
  · exact .fail (hr _ (by rintro ⟨_, ⟨⟩⟩))
  · exact .pure _

/-- Whatever is confined to the machine's own operations keeps counts exact. -/
theorem of_confined {x : Action α} (hx : x.Confined raises) : Keeps raises x := by
  induction hx with
  | pushValue value => exact .pushValue value
  | pop => exact .pop hr
  | peek => exact .peek hr
  | get => exact fun _ hm => at_ok rfl hm
  | pure a => exact .pure a
  | throw d h => exact .throw h
  | bind _ _ ihx ihf => exact ihx.bind ihf
  | tryCatch _ _ ihx ihf => exact ihx.tryCatch ihf

theorem readOperand : Keeps raises Action.readOperand := by
  apply Keeps.get
  intro m
  split
  · exact Keeps.skip.bind fun _ => .pure _
  · exact .fail (hr _ (by rintro ⟨_, ⟨⟩⟩))

/-- What is looked up or shared is on the stack, and so alive. -/
theorem dup : Keeps raises Opcode.dup.perform := by
  intro m hm
  cases hs : m.stack with
  | nil => exact at_error (bind_run_error (peek_nil hs)) hm (hr _ (by rintro ⟨_, ⟨⟩⟩))
  | cons handle rest =>
    have hmem : handle ∈ m.stack := hs ▸ List.mem_cons_self
    obtain ⟨heap, hrun, hcounted, -⟩ := hm.pushShared hmem
    exact at_ok ((bind_run_ok (peek_cons hs)).trans hrun) hcounted

theorem print : Keeps raises Opcode.print.perform := by
  intro m hm
  cases hs : m.stack with
  | nil => exact at_error (bind_run_error (peek_nil hs)) hm (hr _ (by rintro ⟨_, ⟨⟩⟩))
  | cons handle rest =>
    have hmem : handle ∈ m.stack := hs ▸ List.mem_cons_self
    obtain ⟨object, ho⟩ := hm.exists_object hmem
    have hrun := Opcode.perform_print m handle rest object hs ho
    split at hrun
    · exact at_ok hrun (hm.congr rfl rfl)
    · exact at_error hrun hm (hr _ (by rintro ⟨_, ⟨⟩⟩))

theorem perform (op : Opcode) : Keeps raises op.perform := by
  cases hf : op.compute? with
  | some f =>
    rw [Opcode.perform_of_compute? hf]
    apply (pop hr).bind
    intro right
    apply (pop hr).bind
    intro left
    cases h : f left right with
    | ok value => exact .pushValue value
    | error fault =>
      rw [Opcode.divisionByZero_of_compute? hf h]
      exact .fail (hr _ (by rintro ⟨_, ⟨⟩⟩))
  | none =>
    cases op with
    | push => exact (readOperand hr).bind fun operand => .pushValue _
    | dup => exact dup hr
    | print => exact print hr
    | add | sub | mul | div | mod | power => cases hf

end Keeps

end Action

namespace Actions

/-- Each instruction has its own action or one that is confined to the machine's operations. -/
def Confined (raises : Fault → Prop) (actions : Actions) : Prop :=
  ∀ byte action, actions byte = some action →
    (∃ op : Opcode, action = op.perform) ∨ action.Confined raises

theorem standard_confined (raises : Fault → Prop) : standard.Confined raises := by
  intro byte action h
  obtain ⟨op, -, rfl⟩ := Option.map_eq_some_iff.mp h
  exact .inl ⟨op, rfl⟩

theorem Confined.install {raises : Fault → Prop} {actions : Actions} (h : actions.Confined raises)
    (op : Opcode) {action : Action Unit} (ha : action.Confined raises) :
    (actions.install op action).Confined raises := by
  intro byte action' h'
  rw [Actions.install] at h'
  split at h'
  · cases h'
    exact .inr ha
  · exact h byte action' h'

section Run

variable {raises : Fault → Prop} (hr : ∀ fault : Fault, ¬ fault.Dangles → raises fault)
  {actions : Actions} (ha : actions.Confined raises)
include hr ha

/-- Counts are exact after every instruction of a run. -/
theorem keeps_executeWithin (limit : Nat) : (actions.executeWithin limit).Keeps raises := by
  induction limit with
  | zero => exact .pure ()
  | succ limit ih =>
    apply Action.Keeps.get
    intro m
    split
    · exact .pure ()
    · split
      · exact .fail (hr _ (by rintro ⟨_, ⟨⟩⟩))
      · rename_i action haction
        have hkeeps : action.Keeps raises := by
          rcases ha _ action haction with ⟨op, rfl⟩ | hconfined
          · exact .perform hr op
          · exact .of_confined hr hconfined
        apply hkeeps.bind
        intro _
        apply Action.Keeps.skip.bind
        intro _
        exact ih

theorem keeps_execute : actions.execute.Keeps raises :=
  .get fun m => keeps_executeWithin hr ha m.pending.length

theorem keeps_run : actions.run.Keeps raises := by
  apply (keeps_execute hr ha).bind
  intro _
  apply Action.Keeps.get
  intro m
  split
  · exact .pure ()
  · apply (Action.Keeps.pop hr).bind
    intro _
    exact .pure ()

end Run

end Actions

/-- The states of a machine that has been loaded: it may be operated from outside, run with any
instructions that are confined to its operations, and be looked at after each of them, also after
one that has failed. Its output may begin or cease to fail at any time. -/
inductive Machine.Reached (code : List UInt8) : Machine → Prop
  | load (output : Output) : Reached code (Machine.load code output)
  | output {m : Machine} (h : Reached code m) (output : Output) : Reached code { m with output }
  | pushValue {m : Machine} (h : Reached code m) (value : Int64) :
      Reached code (stateAfter (Action.pushValue value m))
  | pop {m : Machine} (h : Reached code m) : Reached code (stateAfter (Action.pop m))
  | execute {m : Machine} (h : Reached code m) {actions : Actions}
      (ha : actions.Confined fun _ => True) : Reached code (stateAfter (actions.execute m))
  | run {m : Machine} (h : Reached code m) {actions : Actions}
      (ha : actions.Confined fun _ => True) : Reached code (stateAfter (actions.run m))
  /-- In the middle of a run. -/
  | instructions {m : Machine} (h : Reached code m) {actions : Actions}
      (ha : actions.Confined fun _ => True) (limit : Nat) :
      Reached code (stateAfter (actions.executeWithin limit m))

theorem Machine.Reached.counted {code : List UInt8} {m : Machine} (h : m.Reached code) :
    m.Counted := by
  have hany : ∀ fault : Fault, ¬ fault.Dangles → True := fun _ _ => trivial
  induction h with
  | load output => exact .load code output
  | output _ output ih => exact ih.congr rfl rfl
  | pushValue _ value ih => exact ih.pushValue value
  | pop _ ih => exact (Action.Keeps.pop hany _ ih).1
  | execute _ ha ih => exact (Actions.keeps_execute hany ha _ ih).1
  | run _ ha ih => exact (Actions.keeps_run hany ha _ ih).1
  | instructions _ ha limit ih => exact (Actions.keeps_executeWithin hany ha limit _ ih).1

/-- In every state of a machine each slot's object is alive, each live object has as many references
as there are slots with its handle, and at least one, and handles that are still to come are larger
than those of live objects. So references and slots are equally many, and no operation finds a
dangling handle, unless an instruction makes up that fault by itself. -/
theorem references_exact {code : List UInt8} {m : Machine} (h : m.Reached code) :
    (∀ handle ∈ m.stack, (m.heap.get? handle).isSome) ∧
    (∀ handle object, m.heap.get? handle = some object →
      object.count = m.stack.count handle ∧ 1 ≤ object.count ∧ handle.id < m.heap.nextId) ∧
    m.heap.references = m.stack.length ∧
    (∀ d m', Action.pop m = .error d m' → ¬ d.fault.Dangles) ∧
    (∀ d m', Action.peek m = .error d m' → ¬ d.fault.Dangles) ∧
    ∀ actions : Actions, actions.Confined (¬ ·.Dangles) → ∀ d m',
      (actions.execute m = .error d m' ∨ actions.run m = .error d m' ∨
        ∃ limit, actions.executeWithin limit m = .error d m') → ¬ d.fault.Dangles := by
  have hm := h.counted
  have hr : ∀ fault : Fault, ¬ fault.Dangles → ¬ fault.Dangles := fun _ h => h
  refine ⟨hm.live, fun handle object hg => ?_, hm.references_eq, ?_, ?_, ?_⟩
  · obtain ⟨hcount, hpos⟩ := hm.exact handle object hg
    exact ⟨hcount, hpos, hm.sound.id_lt hg⟩
  · intro d m' herror
    exact ((Action.Keeps.pop hr).of_error hm herror).2
  · intro d m' herror
    exact ((Action.Keeps.peek hr).of_error hm herror).2
  · rintro actions ha d m' (herror | herror | ⟨limit, herror⟩)
    · exact ((Actions.keeps_execute hr ha).of_error hm herror).2
    · exact ((Actions.keeps_run hr ha).of_error hm herror).2
    · exact ((Actions.keeps_executeWithin hr ha limit).of_error hm herror).2

/-- Seven is put on the stack and shared twice; printing has been replaced by a multiplication,
which takes one of the three slots away and makes an object of its own. -/
theorem references_exact_shared :
    let hundredfold : Action Unit := do Action.pushValue (100 * (← Action.pop))
    let actions := Actions.standard.install .print hundredfold
    let m := stateAfter (actions.executeWithin 4 (Machine.load [0, 7, 1, 1, 8] {}))
    m.Reached [0, 7, 1, 1, 8] ∧ m.stack = [⟨1⟩, ⟨0⟩, ⟨0⟩] ∧
    m.heap.get? ⟨0⟩ = some ⟨7, 2⟩ ∧ m.heap.get? ⟨1⟩ = some ⟨700, 1⟩ ∧
    m.heap.references = m.stack.length ∧
    ∀ d m', Action.pop m = .error d m' → ¬ d.fault.Dangles := by
  intro hundredfold actions m
  have hconfined : hundredfold.Confined fun _ => True := .bind .pop fun _ => .pushValue _
  have hm : m.Reached [0, 7, 1, 1, 8] :=
    .instructions (.load {}) ((Actions.standard_confined _).install .print hconfined) 4
  obtain ⟨-, -, hreferences, hpop, -⟩ := references_exact hm
  exact ⟨hm, by decide, by decide, by decide, hreferences, hpop⟩

end Scriptlet
