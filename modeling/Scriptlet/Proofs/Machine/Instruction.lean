import Scriptlet.Machine.Run
import Scriptlet.Proofs.Sequence

namespace Scriptlet

/-- The code itself is to blame, whatever values it works on. -/
def Fault.OfCode : Fault → Prop
  | .unknownOpcode _ | .operandMissing _ => True
  | _ => False

namespace Machine

/-- Behind the current byte. -/
def skip (m : Machine) : Machine := { m with pending := m.pending.drop 1, pc := m.pc + 1 }

/-- With a new object on top of the stack. -/
def pushValue (m : Machine) (value : Int64) : Machine :=
  { m with
    stack := ⟨m.heap.nextId⟩ :: m.stack
    heap := ⟨(⟨m.heap.nextId⟩, ⟨value, 1⟩) :: m.heap.objects, m.heap.nextId + 1⟩ }

/-- With more text printed. -/
def print (m : Machine) (text : String) : Machine :=
  { m with output := { m.output with text := m.output.text ++ text } }

end Machine

namespace Action

@[simp] theorem skip_run (m : Machine) : skip m = .ok () m.skip := rfl

@[simp] theorem pushValue_run (value : Int64) (m : Machine) :
    pushValue value m = .ok () (m.pushValue value) := rfl

@[simp] theorem fail_run {α : Type} (fault : Fault) (m : Machine) :
    (fail fault : Action α) m = .error (m.diagnostic fault) m := rfl

theorem pop_nil {m : Machine} (hs : m.stack = []) :
    pop m = .error (m.diagnostic .stackUnderflow) m := by
  simp only [pop, get_bind_run, hs, fail_run]

theorem peek_nil {m : Machine} (hs : m.stack = []) :
    peek m = .error (m.diagnostic .stackUnderflow) m := by
  simp only [peek, get_bind_run, hs, fail_run]

theorem peek_cons {m : Machine} {handle : Handle} {rest : List Handle}
    (hs : m.stack = handle :: rest) : peek m = .ok handle m := by
  simp only [peek, get_bind_run, hs, pure_run]

theorem valueOf_run {m : Machine} {handle : Handle} {object : Object}
    (ho : m.heap.get? handle = some object) : valueOf handle m = .ok object.value m := by
  simp only [valueOf, get_bind_run, ho, pure_run]

/-- The newest object, when it has a single reference, is gone once it is popped. -/
theorem pop_newest (m : Machine) (handle : Handle) (stack : List Handle) (value : Int64)
    (objects : List (Handle × Object)) (hs : m.stack = handle :: stack)
    (ho : m.heap.objects = (handle, ⟨value, 1⟩) :: objects) :
    pop m = .ok value { m with stack, heap := ⟨objects, m.heap.nextId⟩ } := by
  simp only [pop, get_bind_run, hs, modify_bind_run, Heap.release?, Heap.get?, ho,
    List.lookup_cons_self, Option.map_some, Heap.alter, Object.released?]
  rfl

/-- An operator takes the two newest objects and leaves its result in their place. -/
theorem binary_newest (op : Int64 → Int64 → Except Fault Int64) (m : Machine)
    (a b : Handle) (stack : List Handle) (left right : Int64)
    (objects : List (Handle × Object)) (hs : m.stack = b :: a :: stack)
    (ho : m.heap.objects = (b, ⟨right, 1⟩) :: (a, ⟨left, 1⟩) :: objects) :
    binary op m =
      let popped : Machine := { m with stack, heap := ⟨objects, m.heap.nextId⟩ }
      match op left right with
      | .ok value => .ok () (popped.pushValue value)
      | .error fault => .error (popped.diagnostic fault) popped := by
  have hr := pop_newest m b (a :: stack) right _ hs ho
  have hl := pop_newest { m with stack := a :: stack, heap := ⟨_, m.heap.nextId⟩ } a stack left
    objects rfl rfl
  rw [binary, bind_run_ok hr, bind_run_ok hl]
  cases op left right with
  | ok value => rfl
  | error fault => rfl

/-- The action leaves the machine at its place in the code and finds no fault with the code. -/
def Stays {α : Type} (x : Action α) : Prop :=
  ∀ m, (stateAfter (x m)).pending = m.pending ∧ (stateAfter (x m)).pc = m.pc ∧
    ∀ d, errorOf? (x m) = some d → ¬ d.fault.OfCode

namespace Stays

variable {α β : Type}

theorem of_ok {x : Action α} (hx : x.Stays) {m m' : Machine} {a : α} (h : x m = .ok a m') :
    m'.pending = m.pending ∧ m'.pc = m.pc := by
  have hs := hx m
  rw [h] at hs
  exact ⟨hs.1, hs.2.1⟩

theorem of_error {x : Action α} (hx : x.Stays) {m m' : Machine} {d : Diagnostic}
    (h : x m = .error d m') : m'.pending = m.pending ∧ m'.pc = m.pc ∧ ¬ d.fault.OfCode := by
  have hs := hx m
  rw [h] at hs
  exact ⟨hs.1, hs.2.1, hs.2.2 d rfl⟩

theorem pure (a : α) : Stays (pure a : Action α) :=
  fun _ => ⟨rfl, rfl, nofun⟩

theorem fail {fault : Fault} (h : ¬ fault.OfCode) : Stays (fail fault : Action α) := by
  refine fun _ => ⟨rfl, rfl, ?_⟩
  rintro _ ⟨⟩
  exact h

/-- A change to anything but the code and the place in it. -/
theorem modify {f : Machine → Machine} (hp : ∀ m, (f m).pending = m.pending)
    (hc : ∀ m, (f m).pc = m.pc) : Stays (modify f : Action PUnit) :=
  fun m => ⟨hp m, hc m, nofun⟩

theorem get {f : Machine → Action α} (hf : ∀ m, (f m).Stays) : Stays (get >>= f) :=
  fun m => hf m m

theorem bind {x : Action α} {f : α → Action β} (hx : x.Stays) (hf : ∀ a, (f a).Stays) :
    Stays (x >>= f) := by
  intro m
  cases h : x m with
  | ok a m' =>
    obtain ⟨hpending, hpc⟩ := hx.of_ok h
    rw [bind_run_ok h, ← hpending, ← hpc]
    exact hf a m'
  | error d m' =>
    obtain ⟨hpending, hpc, hd⟩ := hx.of_error h
    rw [bind_run_error h]
    refine ⟨hpending, hpc, ?_⟩
    rintro _ ⟨⟩
    exact hd

theorem pushValue (value : Int64) : Stays (pushValue value) :=
  .modify (fun _ => rfl) (fun _ => rfl)

theorem pop : Stays pop := by
  apply Stays.get
  intro m
  split
  · exact .fail id
  · refine .bind (.modify (fun _ => rfl) (fun _ => rfl)) fun _ => .get fun m => ?_
    split
    · exact .fail id
    · exact .bind (.modify (fun _ => rfl) (fun _ => rfl)) fun _ => .pure _

theorem peek : Stays peek := by
  apply Stays.get
  intro m
  split
  · exact .fail id
  · exact .pure _

theorem valueOf (handle : Handle) : Stays (valueOf handle) := by
  apply Stays.get
  intro m
  split
  · exact .fail id
  · exact .pure _

theorem pushShared (handle : Handle) : Stays (pushShared handle) := by
  apply Stays.get
  intro m
  split
  · exact .fail id
  · exact .modify (fun _ => rfl) (fun _ => rfl)

theorem write (text : String) : Stays (write text) := by
  apply Stays.get
  intro m
  split
  · exact .fail id
  · exact .modify (fun _ => rfl) (fun _ => rfl)

theorem binary {op : Int64 → Int64 → Except Fault Int64}
    (hop : ∀ left right fault, op left right = .error fault → ¬ fault.OfCode) :
    Stays (binary op) := by
  apply Stays.pop.bind
  intro right
  apply Stays.pop.bind
  intro left
  cases h : op left right with
  | ok value => exact pushValue value
  | error fault => exact .fail (hop left right fault h)

end Stays

end Action

open Scriptlet.Action

namespace Opcode

theorem eq_byte_of_ofByte? {byte : UInt8} {op : Opcode} (h : ofByte? byte = some op) :
    byte = op.byte := by
  obtain ⟨hlt, hop⟩ := List.getElem?_eq_some_iff.mp h
  have hbytes : ∀ (n : Nat) (h : n < all.length), all[n].byte.toNat = n := by decide
  apply UInt8.toNat_inj.mp
  rw [← hop, hbytes byte.toNat hlt]

/-- What the operators compute; the other opcodes are none. -/
def compute? : Opcode → Option (Int64 → Int64 → Except Fault Int64)
  | add => some fun left right => .ok (left + right)
  | sub => some fun left right => .ok (left - right)
  | mul => some fun left right => .ok (left * right)
  | div => some divide
  | mod => some remainder
  | power => some fun left right => .ok (Numeral.power left right)
  | push | dup | print => none

theorem perform_of_compute? {op : Opcode} {f : Int64 → Int64 → Except Fault Int64}
    (h : op.compute? = some f) : op.perform = binary f := by
  cases op <;> cases h <;> rfl

/-- Operators fail on zero divisors only. -/
theorem divisionByZero_of_compute? {op : Opcode} {f : Int64 → Int64 → Except Fault Int64}
    (h : op.compute? = some f) {left right : Int64} {fault : Fault}
    (hf : f left right = .error fault) : fault = .divisionByZero := by
  cases op <;> cases h <;> simp only [divide, remainder, reduceCtorEq] at hf
  all_goals
    split at hf
    · exact (Except.error.inj hf).symm
    · cases hf

/-- Only `push` reads on. -/
theorem stays_perform {op : Opcode} (h : op ≠ push) : op.perform.Stays := by
  cases hf : op.compute? with
  | some f =>
    rw [perform_of_compute? hf]
    refine .binary fun left right fault hfault => ?_
    rw [divisionByZero_of_compute? hf hfault]
    exact id
  | none =>
    cases op with
    | push => exact absurd rfl h
    | dup => exact Stays.peek.bind fun _ => .pushShared _
    | print => exact Stays.peek.bind fun handle => (Stays.valueOf handle).bind fun _ => .write _
    | add | sub | mul | div | mod | power => cases hf

/-- The operand byte becomes a new object. -/
theorem perform_push (m : Machine) (byte operand : UInt8) (rest : List UInt8)
    (h : m.pending = byte :: operand :: rest) :
    push.perform m = .ok () (m.skip.pushValue (Int64.ofNat operand.toNat)) := by
  have hr : readOperand m = .ok operand m.skip := by
    simp only [readOperand, get_bind_run, h]
    exact bind_run_ok (skip_run m)
  rw [perform, bind_run_ok hr, pushValue_run]

theorem perform_push_missing {m : Machine} {byte : UInt8} (h : m.pending = [byte]) :
    push.perform m = .error (m.diagnostic (.operandMissing push.mnemonic)) m := by
  have hr : readOperand m = .error (m.diagnostic (.operandMissing push.mnemonic)) m := by
    simp only [readOperand, get_bind_run, h, fail_run]
  rw [perform, bind_run_error hr]

/-- The action goes on within the code, if it goes on at all. -/
theorem length_pending_le_of_perform {op : Opcode} {m m' : Machine}
    (h : op.perform m = .ok () m') : m'.pending.length ≤ m.pending.length := by
  by_cases hop : op = push
  · subst hop
    rcases hp : m.pending with _ | ⟨byte, _ | ⟨operand, rest⟩⟩
    · have hr : readOperand m = .error (m.diagnostic (.operandMissing push.mnemonic)) m := by
        simp only [readOperand, get_bind_run, hp, fail_run]
      rw [perform, bind_run_error hr] at h
      cases h
    · rw [perform_push_missing hp] at h
      cases h
    · rw [perform_push m byte operand rest hp] at h
      cases h
      simp [Machine.pushValue, Machine.skip, hp]
  · exact Nat.le_of_eq (congrArg List.length ((stays_perform hop).of_ok h).1)

/-- The value on top is printed on a line of its own, unless the output refuses it. -/
theorem perform_print (m : Machine) (handle : Handle) (stack : List Handle) (object : Object)
    (hs : m.stack = handle :: stack) (ho : m.heap.get? handle = some object) :
    print.perform m =
      match m.output.writeFailure with
      | none => .ok () (m.print (toString object.value ++ "\n"))
      | some reason => .error (m.diagnostic (.outputFailed reason)) m := by
  rw [perform, bind_run_ok (peek_cons hs), bind_run_ok (valueOf_run ho)]
  simp only [write, get_bind_run]
  cases m.output.writeFailure with
  | none => rfl
  | some reason => rfl

end Opcode

namespace Actions

/-- Nothing is left to perform at the end of the code. -/
theorem executeWithin_nil (limit : Nat) (m : Machine) (h : m.pending = []) :
    standard.executeWithin limit m = .ok () m := by
  cases limit with
  | zero => rfl
  | succ limit => simp only [executeWithin, get_bind_run, h, pure_run]

theorem executeWithin_unknown (limit : Nat) (m : Machine) (byte : UInt8) (rest : List UInt8)
    (h : m.pending = byte :: rest) (hb : Opcode.ofByte? byte = none) :
    standard.executeWithin (limit + 1) m = .error (m.diagnostic (.unknownOpcode byte)) m := by
  simp only [executeWithin, get_bind_run, h, standard, hb, Option.map_none, fail_run]

/-- A run performs the instruction at hand and goes on behind it. -/
theorem executeWithin_cons (limit : Nat) (m : Machine) (op : Opcode) (rest : List UInt8)
    (h : m.pending = op.byte :: rest) :
    standard.executeWithin (limit + 1) m =
      (op.perform >>= fun _ => skip >>= fun _ => standard.executeWithin limit) m := by
  simp only [executeWithin, get_bind_run, h, standard, Opcode.ofByte?_byte, Option.map_some]

/-- Any bound does that is not below the number of bytes left. -/
theorem executeWithin_standard {limit : Nat} {m : Machine} (h : m.pending.length ≤ limit) :
    standard.executeWithin limit m = standard.execute m := by
  -- Both bounds shrink by one with each instruction, and the code by at least one byte.
  suffices hs : ∀ (n k : Nat) (m : Machine), m.pending.length ≤ n → m.pending.length ≤ k →
      standard.executeWithin n m = standard.executeWithin k m from
    hs limit m.pending.length m h (Nat.le_refl _)
  intro n
  induction n with
  | zero =>
    intro k m hn _
    have hp : m.pending = [] := List.length_eq_zero_iff.mp (Nat.le_zero.mp hn)
    rw [executeWithin_nil 0 m hp, executeWithin_nil k m hp]
  | succ n ih =>
    intro k m hn hk
    cases hp : m.pending with
    | nil => rw [executeWithin_nil _ m hp, executeWithin_nil k m hp]
    | cons byte rest =>
      simp only [hp, List.length_cons] at hn hk
      obtain ⟨k, rfl⟩ : ∃ k', k = k' + 1 := ⟨k - 1, by omega⟩
      cases hop : Opcode.ofByte? byte with
      | none =>
        rw [executeWithin_unknown n m byte rest hp hop, executeWithin_unknown k m byte rest hp hop]
      | some op =>
        obtain rfl := Opcode.eq_byte_of_ofByte? hop
        rw [executeWithin_cons n m op rest hp, executeWithin_cons k m op rest hp]
        cases ha : op.perform m with
        | error d m' => rw [bind_run_error ha, bind_run_error ha]
        | ok u m' =>
          have hl := Opcode.length_pending_le_of_perform ha
          simp only [hp, List.length_cons] at hl
          simp only [bind_run_ok ha, bind_run_ok (skip_run m')]
          apply ih <;> simp only [Machine.skip, List.length_drop] <;> omega

theorem execute_nil (m : Machine) (h : m.pending = []) : standard.execute m = .ok () m :=
  executeWithin_nil _ m h

theorem execute_unknown (m : Machine) (byte : UInt8) (rest : List UInt8)
    (h : m.pending = byte :: rest) (hb : Opcode.ofByte? byte = none) :
    standard.execute m = .error (m.diagnostic (.unknownOpcode byte)) m := by
  rw [← executeWithin_standard (show m.pending.length ≤ rest.length + 1 by simp [h]),
    executeWithin_unknown _ m byte rest h hb]

theorem execute_cons (m : Machine) (op : Opcode) (rest : List UInt8)
    (h : m.pending = op.byte :: rest) :
    standard.execute m =
      match op.perform m with
      | .ok _ m' => standard.execute m'.skip
      | .error d m' => .error d m' := by
  rw [← executeWithin_standard (show m.pending.length ≤ rest.length + 1 by simp [h]),
    executeWithin_cons _ m op rest h]
  cases ha : op.perform m with
  | error d m' => rw [bind_run_error ha]
  | ok u m' =>
    have hl := Opcode.length_pending_le_of_perform ha
    simp only [h, List.length_cons] at hl
    rw [bind_run_ok ha, bind_run_ok (skip_run m')]
    apply executeWithin_standard
    simp only [Machine.skip, List.length_drop]
    omega

end Actions

end Scriptlet
