import Scriptlet.Proofs.Bytecode.Compilation

namespace Scriptlet

open Bytecode Opcode

/-- An instruction with all that belongs to it. -/
inductive Instruction
  | push (operand : UInt8)
  | simple (op : Opcode) (h : op.hasOperand = false)

def Instruction.bytes : Instruction → List UInt8
  | push operand => [Opcode.push.byte, operand]
  | simple op _ => [op.byte]

/-- Every instruction begins with a byte from 0 to 8, of which only 0 is followed by another byte,
whatever that is. -/
inductive Bytecode.WellFormed : List UInt8 → Prop
  | nil : WellFormed []
  | push (operand : UInt8) {rest : List UInt8} (h : WellFormed rest) :
    WellFormed (0 :: operand :: rest)
  | simple {byte : UInt8} {rest : List UInt8} (low : 1 ≤ byte) (high : byte ≤ 8)
    (h : WellFormed rest) : WellFormed (byte :: rest)

/-- The opcodes without an operand have the bytes from 1 to 8. -/
theorem Opcode.exists_byte_eq_iff (byte : UInt8) :
    (∃ op : Opcode, op.hasOperand = false ∧ op.byte = byte) ↔ 1 ≤ byte ∧ byte ≤ 8 := by
  constructor
  · rintro ⟨op, h, rfl⟩
    cases op with
    | push => cases h
    | dup | add | sub | mul | div | mod | power | print => exact ⟨by decide, by decide⟩
  · rintro ⟨low, high⟩
    have hlow : 1 ≤ byte.toNat := UInt8.le_iff_toNat_le.mp low
    have hhigh : byte.toNat < all.length :=
      Nat.lt_succ_of_le (UInt8.le_iff_toNat_le.mp high)
    have hall : ∀ (n : Nat) (h : n < all.length), 1 ≤ n →
        all[n].hasOperand = false ∧ all[n].byte.toNat = n := by decide
    obtain ⟨hop, hbyte⟩ := hall byte.toNat hhigh hlow
    exact ⟨all[byte.toNat], hop, UInt8.toNat_inj.mp hbyte⟩

namespace Bytecode

theorem WellFormed.append {a b : List UInt8} (ha : WellFormed a) (hb : WellFormed b) :
    WellFormed (a ++ b) := by
  induction ha with
  | nil => exact hb
  | push operand _ ih => exact ih.push operand
  | simple low high _ ih => exact ih.simple low high

theorem wellFormed_bytes (instruction : Instruction) : WellFormed instruction.bytes := by
  cases instruction with
  | push operand => exact .push operand .nil
  | simple op h =>
    obtain ⟨low, high⟩ := (exists_byte_eq_iff op.byte).mp ⟨op, h, rfl⟩
    exact .simple low high .nil

/-- Well-formed code can be read as instructions, and instructions one behind the other are it. -/
theorem wellFormed_iff (code : List UInt8) :
    WellFormed code ↔ ∃ instructions : List Instruction,
      instructions.flatMap Instruction.bytes = code := by
  constructor
  · intro h
    induction h with
    | nil => exact ⟨[], rfl⟩
    | push operand _ ih =>
      obtain ⟨instructions, rfl⟩ := ih
      exact ⟨.push operand :: instructions, rfl⟩
    | simple low high _ ih =>
      obtain ⟨instructions, rfl⟩ := ih
      obtain ⟨op, hop, rfl⟩ := (exists_byte_eq_iff _).mpr ⟨low, high⟩
      exact ⟨.simple op hop :: instructions, rfl⟩
  · rintro ⟨instructions, rfl⟩
    induction instructions with
    | nil => exact .nil
    | cons instruction instructions ih => exact (wellFormed_bytes instruction).append ih

section compile

theorem wellFormed_operator {kind : Kind} {op : Opcode} (h : arithmetic? kind = some op) :
    WellFormed [op.byte] := by
  refine wellFormed_bytes (.simple op ?_)
  cases kind <;> simp only [arithmetic?, Option.some.injEq, reduceCtorEq] at h <;> subst h <;> rfl

theorem wellFormed_ofExpr (e : Expr) (code : List UInt8) (h : ofExpr e = .ok code) :
    WellFormed code := by
  match e with
  | .int value span =>
    obtain ⟨operand, -, rfl⟩ := ofExpr_int_eq_ok h
    exact .push operand .nil
  | .binary operator left right span =>
    obtain ⟨op, first, second, hop, hleft, hright, rfl⟩ := ofExpr_binary_eq_ok h
    exact ((wellFormed_ofExpr left first hleft).append
      (wellFormed_ofExpr right second hright)).append (wellFormed_operator hop)
  | .float .. | .string .. | .bool .. | .symbol .. | .unary .. | .assign .. | .member .. | .index ..
  | .call .. | .range .. | .function .. | .array .. | .arrayOf .. | .structOf .. | .construct .. =>
    cases h

theorem wellFormed_ofExprs (es : List Expr) (code : List UInt8) (h : ofExprs es = .ok code) :
    WellFormed code := by
  induction es generalizing code with
  | nil =>
    cases h
    exact .nil
  | cons e es ih =>
    obtain ⟨first, rest, hfirst, hrest, rfl⟩ := ofExprs_cons_eq_ok h
    exact (wellFormed_ofExpr e first hfirst).append
      ((ih rest hrest).simple (by decide) (by decide))

theorem wellFormed_of_compile {program : Block} {code : List UInt8}
    (h : compile program = .ok code) : WellFormed code :=
  wellFormed_ofExprs _ code (ofExprs_expressionsOfAll program.body code h)

end compile

end Bytecode

/-- A run that has ended before whole instructions, and not for any fault of the code. -/
def EndsWhole (r : EStateM.Result Diagnostic Machine Unit) : Prop :=
  WellFormed (stateAfter r).pending ∧ ∀ d, errorOf? r = some d → ¬ d.fault.OfCode

namespace Actions

theorem endsWhole_execute {m : Machine} (h : WellFormed m.pending) :
    EndsWhole (standard.execute m) := by
  generalize hp : m.pending = code at h
  induction h generalizing m with
  | nil =>
    rw [execute_nil m hp]
    refine ⟨?_, nofun⟩
    rw [stateAfter, hp]
    exact .nil
  | push operand _ ih =>
    rw [execute_cons m .push _ hp, perform_push m _ operand _ hp]
    apply ih
    simp [Machine.skip, Machine.pushValue, hp]
  | @simple byte rest low high hrest ih =>
    obtain ⟨op, hop, rfl⟩ := (exists_byte_eq_iff byte).mpr ⟨low, high⟩
    have hstays : op.perform.Stays := stays_perform (by rintro rfl; cases hop)
    rw [execute_cons m op rest hp]
    cases hr : op.perform m with
    | ok u m' =>
      apply ih
      rw [Machine.skip, (hstays.of_ok hr).1, hp, List.drop_succ_cons, List.drop_zero]
    | error d m' =>
      obtain ⟨hpending, -, hd⟩ := hstays.of_error hr
      refine ⟨?_, ?_⟩
      · rw [stateAfter, hpending, hp]
        exact hrest.simple low high
      · rintro _ ⟨⟩
        exact hd

theorem endsWhole_run {m : Machine} (h : WellFormed m.pending) : EndsWhole (standard.run m) := by
  obtain ⟨hpending, hfault⟩ := endsWhole_execute h
  cases hr : standard.execute m with
  | error d m' =>
    rw [run, bind_run_error hr]
    rw [hr] at hpending hfault
    exact ⟨hpending, hfault⟩
  | ok u m' =>
    rw [run, bind_run_ok hr, get_bind_run]
    rw [hr] at hpending
    -- What is left to do is dropping a value, which is no instruction.
    cases m'.stack with
    | nil => exact ⟨hpending, nofun⟩
    | cons =>
      have hdrop : Action.Stays (Action.pop >>= fun _ => pure ()) :=
        Action.Stays.pop.bind fun _ => .pure ()
      obtain ⟨hsame, -, hnone⟩ := hdrop m'
      exact ⟨hsame ▸ hpending, hnone⟩

end Actions

end Scriptlet
