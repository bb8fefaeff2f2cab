import Scriptlet.Proofs.Machine.Counting
import Scriptlet.Proofs.Machine.Plain

namespace Scriptlet

/-- The machines stand at the same place, have printed the same, and each handle refers to the value
in its place. -/
structure Machine.Shows (m : Machine) (p : Plain) : Prop where
  pc : m.pc = p.pc
  values : m.stack.map (fun handle => (m.heap.get? handle).map (·.value)) = p.stack.map some
  text : m.output.text = p.text

/-- The first machine shows the second one, with this much code left and an output that works. -/
structure Machine.Runs (left : List UInt8) (m : Machine) (p : Plain) : Prop where
  shows : m.Shows p
  counted : m.Counted
  pending : m.pending = left
  writable : m.output.writeFailure = none

/-- Both succeed with one result, or fail with one fault, at the place that the diagnostic names. -/
def Agree {α : Type} (R : Machine → Plain → Prop) :
    EStateM.Result Diagnostic Machine α → EStateM.Result Fault Plain α → Prop
  | .ok a m, .ok b p => a = b ∧ R m p
  | .error d m, .error fault p => d = m.diagnostic fault ∧ R m p
  | _, _ => False

theorem Agree.bind {α β : Type} {R S : Machine → Plain → Prop} {x : Action α}
    {y : Plain.Action α} {f : α → Action β} {g : α → Plain.Action β} {m : Machine} {p : Plain}
    (h : Agree R (x m) (y p)) (hS : ∀ m p, R m p → S m p)
    (hf : ∀ a m p, R m p → Agree S (f a m) (g a p)) : Agree S ((x >>= f) m) ((y >>= g) p) := by
  cases hx : x m <;> cases hy : y p <;> rw [hx, hy] at h
  · obtain ⟨rfl, hr⟩ := h
    rw [bind_run_ok hx, bind_run_ok hy]
    exact hf _ _ _ hr
  · exact h.elim
  · exact h.elim
  · rw [bind_run_error hx, bind_run_error hy]
    exact ⟨h.1, hS _ _ h.2⟩

/-- Without reading any code, the second action does what the first one does. -/
def Simulates {α : Type} (x : Action α) (y : Plain.Action α) : Prop :=
  ∀ left m p, m.Runs left p → Agree (Machine.Runs left) (x m) (y p)

namespace Machine.Shows

variable {m : Machine} {p : Plain}

theorem stack_nil (h : m.Shows p) (hs : m.stack = []) : p.stack = [] := by
  have hv := h.values
  rw [hs, List.map_nil] at hv
  exact List.map_eq_nil_iff.mp hv.symm

theorem stack_cons (h : m.Shows p) {handle : Handle} {rest : List Handle}
    (hs : m.stack = handle :: rest) {object : Object} (ho : m.heap.get? handle = some object) :
    ∃ values, p.stack = object.value :: values ∧
      rest.map (fun handle => (m.heap.get? handle).map (·.value)) = values.map some := by
  have hv := h.values
  rw [hs, List.map_cons, ho] at hv
  cases hp : p.stack with
  | nil =>
    rw [hp] at hv
    cases hv
  | cons value values =>
    rw [hp, List.map_cons] at hv
    obtain ⟨hvalue, hrest⟩ := List.cons.inj hv
    cases hvalue
    exact ⟨values, rfl, hrest⟩

end Machine.Shows

namespace Simulates

variable {α β : Type}

theorem bind {x : Action α} {y : Plain.Action α} {f : α → Action β} {g : α → Plain.Action β}
    (hx : Simulates x y) (hf : ∀ a, Simulates (f a) (g a)) : Simulates (x >>= f) (y >>= g) :=
  fun left m p hm => (hx left m p hm).bind (fun _ _ h => h) fun a m' p' => hf a left m' p'

theorem fail (fault : Fault) : Simulates (Action.fail fault : Action α) (throw fault) :=
  fun _ _ _ hm => ⟨rfl, hm⟩

theorem pushValue (value : Int64) : Simulates (Action.pushValue value) (Plain.push value) := by
  intro left m p hm
  rw [Action.pushValue_run]
  refine ⟨rfl, ⟨⟨hm.shows.pc, ?_, hm.shows.text⟩, hm.counted.pushValue value, hm.pending,
    hm.writable⟩⟩
  -- The handle is new, so the slots below still show what they showed.
  have hold : ∀ handle ∈ m.stack, (m.pushValue value).heap.get? handle = m.heap.get? handle := by
    intro handle hmem
    obtain ⟨object, ho⟩ := hm.counted.exists_object hmem
    have hlt := hm.counted.sound.id_lt ho
    refine (Heap.get?_allocate value handle).trans (if_neg ?_)
    rintro rfl
    exact Nat.lt_irrefl _ hlt
  have hnew : (m.pushValue value).heap.get? ⟨m.heap.nextId⟩ = some ⟨value, 1⟩ :=
    (Heap.get?_allocate value _).trans (if_pos rfl)
  change (_ :: m.stack).map _ = (value :: p.stack).map some
  rw [List.map_cons, hnew, List.map_cons, ← hm.shows.values]
  refine congrArg _ (List.map_congr_left fun handle hmem => ?_)
  rw [hold handle hmem]

theorem pop : Simulates Action.pop Plain.pop := by
  intro left m p hm
  cases hs : m.stack with
  | nil =>
    rw [Action.pop_nil hs]
    simp only [Plain.pop, get_bind_run, hm.shows.stack_nil hs]
    exact ⟨rfl, hm⟩
  | cons handle rest =>
    obtain ⟨object, heap, ho, hrun, hcounted, hvalues⟩ := hm.counted.pop hs
    obtain ⟨values, hp, hrest⟩ := hm.shows.stack_cons hs ho
    rw [hrun]
    simp only [Plain.pop, get_bind_run, hp, modify_bind_run]
    refine ⟨rfl, ⟨⟨hm.shows.pc, ?_, hm.shows.text⟩, hcounted, hm.pending, hm.writable⟩⟩
    exact (List.map_congr_left hvalues).trans hrest

theorem binary (op : Int64 → Int64 → Except Fault Int64) :
    Simulates (Action.binary op) (Plain.binary op) := by
  apply pop.bind
  intro right
  apply pop.bind
  intro left
  cases op left right with
  | ok value => exact pushValue value
  | error fault => exact fail fault

/-- Looking at the top finds a handle in one machine and its value in the other. -/
theorem peek_bind {f : Handle → Action α} {g : Int64 → Plain.Action α}
    (hf : ∀ left m p handle object, m.Runs left p → handle ∈ m.stack →
      m.heap.get? handle = some object →
      Agree (Machine.Runs left) (f handle m) (g object.value p)) :
    Simulates (Action.peek >>= f) (Plain.peek >>= g) := by
  intro left m p hm
  cases hs : m.stack with
  | nil =>
    rw [bind_run_error (Action.peek_nil hs),
      bind_run_error (Plain.peek_nil (hm.shows.stack_nil hs))]
    exact ⟨rfl, hm⟩
  | cons handle rest =>
    have hmem : handle ∈ m.stack := by
      rw [hs]
      exact List.mem_cons_self
    obtain ⟨object, ho⟩ := hm.counted.exists_object hmem
    obtain ⟨values, hp, -⟩ := hm.shows.stack_cons hs ho
    rw [bind_run_ok (Action.peek_cons hs), bind_run_ok (Plain.peek_cons hp)]
    exact hf left m p handle object hm hmem ho

/-- Sharing an object looks like copying its value. -/
theorem dup (behind : List UInt8) : Simulates Opcode.dup.perform (Plain.perform behind .dup) := by
  apply peek_bind
  intro left m p handle object hm hmem ho
  obtain ⟨heap, hrun, hcounted, hvalues⟩ := hm.counted.pushShared hmem
  rw [hrun]
  refine ⟨rfl, ⟨⟨hm.shows.pc, ?_, hm.shows.text⟩, hcounted, hm.pending, hm.writable⟩⟩
  change (handle :: m.stack).map _ = (object.value :: p.stack).map some
  rw [List.map_cons, List.map_cons, ← hm.shows.values, hvalues, ho]
  exact congrArg _ (List.map_congr_left fun other _ => hvalues other)

theorem print (behind : List UInt8) :
    Simulates Opcode.print.perform (Plain.perform behind .print) := by
  apply peek_bind
  intro left m p handle object hm hmem ho
  rw [bind_run_ok (Action.valueOf_run ho)]
  simp only [Action.write, get_bind_run, hm.writable]
  refine ⟨rfl, ⟨⟨hm.shows.pc, hm.shows.values, ?_⟩, hm.counted.congr rfl rfl, hm.pending,
    hm.writable⟩⟩
  exact congrArg (· ++ _) hm.shows.text

theorem perform {op : Opcode} (hop : op.size = 1) (behind : List UInt8) :
    Simulates op.perform (Plain.perform behind op) := by
  cases hf : op.compute? with
  | some f =>
    rw [Opcode.perform_of_compute? hf, Plain.perform_of_compute? hf]
    exact binary f
  | none =>
    cases op with
    | push => cases hop
    | dup => exact dup behind
    | print => exact print behind
    | add | sub | mul | div | mod | power => cases hf

end Simulates

theorem Machine.Runs.skip {byte : UInt8} {left : List UInt8} {m : Machine} {p : Plain}
    (hm : m.Runs (byte :: left) p) : m.skip.Runs left { p with pc := p.pc + 1 } :=
  ⟨⟨congrArg (· + 1) hm.shows.pc, hm.shows.values, hm.shows.text⟩, hm.counted.congr rfl rfl,
    congrArg (·.drop 1) hm.pending, hm.writable⟩

/-- The machines agree on an instruction, and behind it on the next one. -/
theorem agree_instruction {op : Opcode} {behind : List UInt8} {m : Machine} {p : Plain}
    (hm : m.Runs (op.byte :: behind) p) :
    match op.perform m, Plain.perform behind op p with
    | .ok _ m', .ok _ p' =>
      m'.skip.Runs (behind.drop (op.size - 1)) { p' with pc := p'.pc + op.size }
    | .error d m', .error fault p' =>
      d = m'.diagnostic fault ∧ m'.Runs (op.byte :: behind) p'
    | _, _ => False := by
  -- Only `push` takes what stands behind it; the other actions do not depend on the code.
  by_cases hop : op.size = 1
  · have hagree := Simulates.perform hop behind _ m p hm
    cases hx : op.perform m <;> cases hy : Plain.perform behind op p <;> rw [hx, hy] at hagree
    · rw [hop]
      exact hagree.2.skip
    · exact hagree
    · exact hagree
    · exact hagree
  · obtain rfl : op = .push := by
      cases op <;> first | rfl | exact absurd rfl hop
    cases behind with
    | nil =>
      rw [Opcode.perform_push_missing hm.pending]
      exact ⟨rfl, hm⟩
    | cons operand behind =>
      rw [Opcode.perform_push m _ operand behind hm.pending]
      obtain ⟨-, hpushed⟩ := Simulates.pushValue (Int64.ofNat operand.toNat) _ _ _ hm.skip
      exact hpushed.skip

theorem agree_execute {left : List UInt8} {m : Machine} {p : Plain} (hm : m.Runs left p) :
    Agree (fun m p => ∃ left, m.Runs left p) (Actions.standard.execute m)
      (Plain.execute left p) := by
  -- The code left gets shorter by the size of an instruction, and `Runs` holds again behind it.
  induction hn : left.length using Nat.strongRecOn generalizing left m p with
  | ind n ih =>
  subst hn
  cases left with
  | nil =>
    rw [Actions.execute_nil m hm.pending]
    exact ⟨rfl, _, hm⟩
  | cons byte behind =>
    cases hop : Opcode.ofByte? byte with
    | none =>
      rw [Actions.execute_unknown m byte behind hm.pending hop, Plain.execute, hop]
      exact ⟨rfl, _, hm⟩
    | some op =>
      obtain rfl := Opcode.eq_byte_of_ofByte? hop
      have hagree := agree_instruction hm
      rw [Actions.execute_cons m op behind hm.pending, Plain.execute_cons]
      cases hx : op.perform m <;> cases hy : Plain.perform behind op p <;> rw [hx, hy] at hagree
      · rw [bind_run_ok hy]
        refine ih _ ?_ hagree rfl
        rw [List.length_drop, List.length_cons]
        omega
      · exact hagree.elim
      · exact hagree.elim
      · rw [bind_run_error hy]
        exact ⟨hagree.1, _, hagree.2⟩

theorem agree_run {code : List UInt8} {m : Machine} {p : Plain} (hm : m.Runs code p) :
    Agree (fun m p => ∃ left, m.Runs left p) (Actions.standard.run m) (Plain.run code p) := by
  apply (agree_execute hm).bind (fun _ _ h => h)
  rintro - m p ⟨left, hm⟩
  rw [get_bind_run]
  cases hs : m.stack with
  | nil =>
    refine ⟨rfl, left, ⟨hm.shows.pc, ?_, hm.shows.text⟩, hm.counted, hm.pending, hm.writable⟩
    have hp := hm.shows.stack_nil hs
    rw [hm.shows.values]
    simp only [hp, List.drop_nil]
  | cons handle rest =>
    obtain ⟨object, heap, ho, hrun, hcounted, hvalues⟩ := hm.counted.pop hs
    obtain ⟨values, hp, hrest⟩ := hm.shows.stack_cons hs ho
    simp only [bind_run_ok hrun]
    refine ⟨rfl, left, ⟨hm.shows.pc, ?_, hm.shows.text⟩, hcounted, hm.pending, hm.writable⟩
    simp only [hp, List.drop_succ_cons, List.drop_zero]
    exact (List.map_congr_left hvalues).trans hrest

/-- How a run of the code ends on both machines: behind the code, or with the same fault at the
first byte of an instruction, where the diagnostic says it is. -/
def EndsAlike (code : List UInt8) :
    EStateM.Result Diagnostic Machine Unit → EStateM.Result Fault Plain Unit → Prop
  | .ok _ m, .ok _ p => m.Shows p ∧ p.pc = code.length
  | .error d m, .error fault p => m.Shows p ∧ d = ⟨fault, ⟨p.pc, "<bytecode>"⟩⟩ ∧
      Boundary code p.pc ∧ p.pc < code.length
  | _, _ => False

theorem Agree.endsAlike {code : List UInt8} {x : EStateM.Result Diagnostic Machine Unit}
    {y : EStateM.Result Fault Plain Unit} (h : Agree (fun m p => ∃ left, m.Runs left p) x y)
    (hlen : code.length < 2 ^ 32) (hends : Plain.Ends code y) : EndsAlike code x y := by
  cases x <;> cases y
  · obtain ⟨-, left, hm⟩ := h
    exact ⟨hm.shows, hends⟩
  · exact h
  · exact h
  · obtain ⟨rfl, left, hm⟩ := h
    refine ⟨hm.shows, ?_, hends⟩
    rw [Machine.diagnostic, hm.shows.pc]
    exact congrArg (fun offset => (⟨_, ⟨offset, _⟩⟩ : Diagnostic))
      (Nat.mod_eq_of_lt (hends.2.trans hlen))

/-- Programs cannot tell that there is a heap: whatever the code is, the machine prints, leaves on
its stack and reports what the machine without a heap does. -/
theorem heap_unobservable (code : List UInt8) (output : Output) (hlen : code.length < 2 ^ 32)
    (hw : output.writeFailure = none) :
    EndsAlike code (Actions.standard.execute (.load code output))
      (Plain.execute code { text := output.text }) ∧
    EndsAlike code (Actions.standard.run (.load code output))
      (Plain.run code { text := output.text }) := by
  have hload : (Machine.load code output).Runs code { text := output.text } :=
    ⟨⟨rfl, rfl, rfl⟩, .load code output, rfl, hw⟩
  exact ⟨(agree_execute hload).endsAlike hlen (Plain.ends_execute .start (Nat.zero_le _) rfl),
    (agree_run hload).endsAlike hlen (Plain.ends_run code output.text)⟩

/-- A value is shared, divided by itself and printed, and the operand of the last instruction is
missing. -/
theorem heap_unobservable_missing_operand :
    let code : List UInt8 := [0, 7, 1, 5, 8, 0]
    code.length < 2 ^ 32 ∧ ∃ m p,
      Actions.standard.execute (.load code {}) =
        .error ⟨.operandMissing "push", ⟨5, "<bytecode>"⟩⟩ m ∧
      Plain.execute code {} = .error (.operandMissing "push") p ∧
      m.Shows p ∧ Boundary code 5 ∧ p.stack = [1] ∧ p.text = "1\n" := by
  intro code
  have hlen : code.length < 2 ^ 32 := by decide
  have hp : Plain.execute code {} = .error (.operandMissing "push") ⟨5, [1], "1\n"⟩ := by
    rfl
  have hends := (heap_unobservable code {} hlen rfl).1
  change EndsAlike code _ (Plain.execute code {}) at hends
  rw [hp] at hends
  cases hx : Actions.standard.execute (.load code {}) with
  | ok u m =>
    rw [hx] at hends
    exact hends.elim
  | error d m =>
    rw [hx] at hends
    obtain ⟨hshows, rfl, hb, -⟩ := hends
    exact ⟨hlen, m, _, rfl, hp, hshows, hb, rfl, rfl⟩

end Scriptlet
