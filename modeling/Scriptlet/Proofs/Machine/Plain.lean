import Scriptlet.Proofs.Machine.Instruction

/-!
The stack machine as it is explained to those who write code for it: values lie on the stack
themselves, so nothing is shared and nothing is ever freed. It reads the code from front to back
and stops at the instruction that fails.
-/
namespace Scriptlet

/-- Bytes of the instruction, with its operand. -/
def Opcode.size (op : Opcode) : Nat := if op.hasOperand then 2 else 1

/-- Where an instruction begins, or may begin, when the code is read from its start. -/
inductive Boundary (code : List UInt8) : Nat → Prop
  | start : Boundary code 0
  | next {k : Nat} {op : Opcode} (h : Boundary code k) (hop : code[k]? = some op.byte) :
      Boundary code (k + op.size)

/-- The top of the stack comes first. -/
structure Plain where
  pc : Nat := 0
  stack : List Int64 := []
  text : String := ""

namespace Plain

abbrev Action := EStateM Fault Plain

def push (value : Int64) : Action Unit :=
  modify fun p => { p with stack := value :: p.stack }

def pop : Action Int64 := do
  match (← get).stack with
  | [] => throw .stackUnderflow
  | value :: rest =>
    modify ({ · with stack := rest })
    return value

def peek : Action Int64 := do
  match (← get).stack with
  | [] => throw .stackUnderflow
  | value :: _ => return value

def print (value : Int64) : Action Unit :=
  modify fun p => { p with text := p.text ++ (toString value ++ "\n") }

def binary (op : Int64 → Int64 → Except Fault Int64) : Action Unit := do
  let right ← pop
  let left ← pop
  match op left right with
  | .ok value => push value
  | .error fault => throw fault

/-- Performs the instruction in front of these bytes. -/
def perform (behind : List UInt8) : Opcode → Action Unit
  | .push =>
    match behind with
    | [] => throw (.operandMissing "push")
    | operand :: _ => push (Int64.ofNat operand.toNat)
  | .dup => do push (← peek)
  | .add => binary fun left right => .ok (left + right)
  | .sub => binary fun left right => .ok (left - right)
  | .mul => binary fun left right => .ok (left * right)
  | .div => binary Opcode.divide
  | .mod => binary Opcode.remainder
  | .power => binary fun left right => .ok (Numeral.power left right)
  | .print => do print (← peek)

/-- Goes on behind an instruction that has not failed. -/
def advance (op : Opcode) : Action Unit :=
  modify fun p => { p with pc := p.pc + op.size }

/-- Performs the code that is left. -/
def execute : List UInt8 → Action Unit
  | [] => return
  | byte :: behind =>
    match Opcode.ofByte? byte with
    | none => throw (.unknownOpcode byte)
    | some op => do
      perform behind op
      advance op
      match op.hasOperand, behind with
      | true, _ :: behind => execute behind
      | _, behind => execute behind

/-- Drops the value on the top in the end, if there is one. -/
def run (code : List UInt8) : Action Unit := do
  execute code
  modify fun p => { p with stack := p.stack.drop 1 }

theorem peek_nil {p : Plain} (hs : p.stack = []) : peek p = .error .stackUnderflow p := by
  simp only [peek, get_bind_run, hs, throw_run]

theorem peek_cons {p : Plain} {value : Int64} {rest : List Int64} (hs : p.stack = value :: rest) :
    peek p = .ok value p := by
  simp only [peek, get_bind_run, hs, pure_run]

theorem execute_cons (op : Opcode) (behind : List UInt8) :
    execute (op.byte :: behind) = (do
      perform behind op
      advance op
      execute (behind.drop (op.size - 1))) := by
  rw [execute, Opcode.ofByte?_byte]
  cases op <;> cases behind <;> rfl

theorem perform_of_compute? {op : Opcode} {f : Int64 → Int64 → Except Fault Int64}
    (h : op.compute? = some f) (behind : List UInt8) : perform behind op = binary f := by
  cases op <;> cases h <;> rfl

/-- An instruction that has not failed is there with its operand. -/
theorem size_le_of_perform {op : Opcode} {behind : List UInt8} {p p' : Plain}
    (h : perform behind op p = .ok () p') : 1 ≤ op.size ∧ op.size ≤ behind.length + 1 := by
  cases op with
  | push =>
    cases behind with
    | nil => cases h
    | cons operand behind =>
      refine ⟨by decide, ?_⟩
      change 2 ≤ behind.length + 1 + 1
      omega
  | dup | add | sub | mul | div | mod | power | print => exact ⟨Nat.le_refl _, Nat.le_add_left _ _⟩

section Place

/-- The action stays at the instruction. -/
abbrev Stays {α : Type} (x : Action α) : Prop := Moves (fun p p' : Plain => p'.pc = p.pc) x

theorem stays_bind {α β : Type} {x : Action α} {f : α → Action β} (hx : Stays x)
    (hf : ∀ a, Stays (f a)) : Stays (x >>= f) :=
  Moves.bind (fun h h' => h'.trans h) hx hf

theorem stays_pop : Stays pop := by
  intro p
  simp only [pop, get_bind_run]
  cases p.stack with
  | nil => rfl
  | cons value rest => rfl

theorem stays_peek : Stays peek := by
  intro p
  simp only [peek, get_bind_run]
  cases p.stack with
  | nil => rfl
  | cons value rest => rfl

theorem stays_binary (op : Int64 → Int64 → Except Fault Int64) : Stays (binary op) := by
  apply stays_bind stays_pop
  intro right
  apply stays_bind stays_pop
  intro left
  cases op left right with
  | ok value => exact fun _ => rfl
  | error fault => exact fun _ => rfl

theorem stays_perform (behind : List UInt8) (op : Opcode) : Stays (perform behind op) := by
  cases hf : op.compute? with
  | some f =>
    rw [perform_of_compute? hf]
    exact stays_binary f
  | none =>
    cases op with
    | push => cases behind <;> exact fun _ => rfl
    | dup => exact stays_bind stays_peek fun _ _ => rfl
    | print => exact stays_bind stays_peek fun _ _ => rfl
    | add | sub | mul | div | mod | power => cases hf

/-- Behind the code after a success, at the first byte of an instruction after a fault. -/
def Ends (code : List UInt8) : EStateM.Result Fault Plain Unit → Prop
  | .ok _ p => p.pc = code.length
  | .error _ p => Boundary code p.pc ∧ p.pc < code.length

theorem ends_execute {code left : List UInt8} {p : Plain} (hp : Boundary code p.pc)
    (hle : p.pc ≤ code.length) (hleft : code.drop p.pc = left) : Ends code (execute left p) := by
  -- An operand goes with its instruction, so the code left may get two bytes shorter.
  induction hn : left.length using Nat.strongRecOn generalizing left p with
  | ind n ih =>
  subst hn
  cases left with
  | nil => exact Nat.le_antisymm hle (List.drop_eq_nil_iff.mp hleft)
  | cons byte behind =>
    have hat : code[p.pc]? = some byte := by
      rw [← List.head?_drop, hleft, List.head?_cons]
    have hlt : p.pc < code.length := (List.getElem?_eq_some_iff.mp hat).1
    cases hop : Opcode.ofByte? byte with
    | none =>
      rw [execute, hop]
      exact ⟨hp, hlt⟩
    | some op =>
      obtain rfl := Opcode.eq_byte_of_ofByte? hop
      rw [execute_cons]
      cases hr : perform behind op p with
      | error fault p' =>
        have hpc : p'.pc = p.pc := (stays_perform behind op).of_error hr
        rw [bind_run_error hr]
        exact ⟨hpc ▸ hp, hpc ▸ hlt⟩
      | ok u p' =>
        have hpc : p'.pc = p.pc := (stays_perform behind op).of_ok hr
        obtain ⟨hpos, hsize⟩ := size_le_of_perform hr
        have hdrop : code.drop (p'.pc + op.size) = behind.drop (op.size - 1) := by
          rw [hpc, ← List.drop_drop, hleft, ← Nat.sub_add_cancel hpos, List.drop_succ_cons,
            Nat.add_sub_cancel]
        have hle' : p'.pc + op.size ≤ code.length := by
          have hlength := congrArg List.length hleft
          rw [List.length_drop, List.length_cons] at hlength
          omega
        rw [bind_run_ok hr, advance, modify_bind_run]
        refine ih _ ?_ (p := { p' with pc := p'.pc + op.size }) ?_ hle' hdrop rfl
        · rw [List.length_drop, List.length_cons]
          omega
        · exact hpc ▸ hp.next hat

theorem ends_run (code : List UInt8) (text : String) : Ends code (run code { text }) := by
  have hends := ends_execute (p := { text }) .start (Nat.zero_le _) (List.drop_zero (l := code))
  cases h : execute code { text } with
  | ok u p =>
    rw [run, bind_run_ok h]
    rwa [h] at hends
  | error fault p =>
    rw [run, bind_run_error h]
    rwa [h] at hends

end Place

end Plain

end Scriptlet
