import Scriptlet.Proofs.Machine.Instruction
import Scriptlet.Proofs.Numeral.Digits

/-!
Control does not depend on data. Two codes that differ in the operands of `push` only are run with
the same handles, the same counts, the same number of lines and the same end, until one of them
divides by zero: no value is ever looked at to decide what happens next, but for divisors.
-/
namespace Scriptlet

open Opcode

namespace Bytecode

/-- The places of the bytes that belong to a `push`, where instructions are read from the first byte
on, and bytes that are no opcodes are passed over. -/
inductive IsOperand : List UInt8 → Nat → Prop
  | here {operand : UInt8} {rest : List UInt8} : IsOperand (push.byte :: operand :: rest) 1
  | push {operand : UInt8} {rest : List UInt8} {i : Nat} (h : IsOperand rest i) :
    IsOperand (push.byte :: operand :: rest) (i + 2)
  | byte {byte : UInt8} (hb : byte ≠ push.byte) {rest : List UInt8} {i : Nat}
    (h : IsOperand rest i) : IsOperand (byte :: rest) (i + 1)

/-- The codes are equally long and differ in nothing but operands. -/
structure SameControl (a b : List UInt8) : Prop where
  length_eq : a.length = b.length
  isOperand_of_ne : ∀ i, a[i]? ≠ b[i]? → IsOperand a i

/-- The same, said along the instructions of both. -/
inductive Aligned : List UInt8 → List UInt8 → Prop
  | nil : Aligned [] []
  /-- The operand is missing in both. -/
  | pushEnd : Aligned [push.byte] [push.byte]
  | push (operand operand' : UInt8) {rest rest' : List UInt8} (h : Aligned rest rest') :
    Aligned (push.byte :: operand :: rest) (push.byte :: operand' :: rest')
  | byte {byte : UInt8} (hb : byte ≠ push.byte) {rest rest' : List UInt8}
    (h : Aligned rest rest') : Aligned (byte :: rest) (byte :: rest')

/-- The first byte is never an operand. -/
theorem SameControl.head_eq {first first' : UInt8} {rest rest' : List UInt8}
    (h : SameControl (first :: rest) (first' :: rest')) : first = first' := by
  apply Decidable.of_not_not
  intro hne
  cases h.isOperand_of_ne 0 (fun heq => hne (Option.some.inj heq))

theorem SameControl.aligned : {a b : List UInt8} → SameControl a b → Aligned a b
  | [], [], _ => .nil
  | [], _ :: _, h => nomatch h.length_eq
  | _ :: _, [], h => nomatch h.length_eq
  | first :: rest, first' :: rest', h => by
    obtain rfl := h.head_eq
    have hlength := Nat.succ.inj h.length_eq
    by_cases hb : first = push.byte
    · subst hb
      match rest, rest' with
      | [], [] => exact .pushEnd
      | [], _ :: _ => cases hlength
      | _ :: _, [] => cases hlength
      | operand :: rest, operand' :: rest' =>
        have hrest : SameControl rest rest' := by
          refine ⟨Nat.succ.inj hlength, fun i hne => ?_⟩
          cases h.isOperand_of_ne (i + 2) hne with
          | push h => exact h
          | byte hb => exact absurd rfl hb
        exact .push operand operand' hrest.aligned
    · have hrest : SameControl rest rest' := by
        refine ⟨hlength, fun i hne => ?_⟩
        cases h.isOperand_of_ne (i + 1) hne with
        | here => exact absurd rfl hb
        | push => exact absurd rfl hb
        | byte _ h => exact h
      exact .byte hb hrest.aligned

end Bytecode

open Bytecode

namespace Heap

/-- The live handles, each with its number of references. -/
def counts (h : Heap) : List (Handle × Nat) :=
  h.objects.map fun entry => (entry.1, entry.2.count)

theorem lookup_counts (h : Heap) (handle : Handle) :
    h.counts.lookup handle = (h.get? handle).map (·.count) := by
  rw [counts, get?]
  induction h.objects with
  | nil => rfl
  | cons entry rest ih =>
    obtain ⟨key, object⟩ := entry
    rw [List.map_cons, List.lookup_cons, List.lookup_cons, ih]
    cases handle == key <;> rfl

variable {h h' : Heap}

/-- An object that is alive in one heap is so in the other, with as many references. -/
theorem get?_of_counts_eq (hc : h.counts = h'.counts) (handle : Handle) :
    (h.get? handle = none ∧ h'.get? handle = none) ∨
    ∃ object object', h.get? handle = some object ∧ h'.get? handle = some object' ∧
      object.count = object'.count := by
  have hlookup := congrArg (·.lookup handle) hc
  simp only [lookup_counts] at hlookup
  cases ho : h.get? handle <;> cases ho' : h'.get? handle <;> rw [ho, ho'] at hlookup
  · exact .inl ⟨rfl, rfl⟩
  · cases hlookup
  · cases hlookup
  · exact .inr ⟨_, _, rfl, rfl, Option.some.inj hlookup⟩

/-- A change that only depends on how often an object is referred to does the same to the counts. -/
theorem counts_alter {change : Object → Option Object}
    (hchange : ∀ o o' : Object, o.count = o'.count →
      (change o).map (·.count) = (change o').map (·.count))
    (handle : Handle) (hc : h.counts = h'.counts) :
    ({ h with objects := alter change handle h.objects } : Heap).counts =
      ({ h' with objects := alter change handle h'.objects } : Heap).counts := by
  simp only [counts] at hc ⊢
  generalize h.objects = objects at hc ⊢
  generalize h'.objects = objects' at hc ⊢
  induction objects generalizing objects' with
  | nil =>
    obtain rfl := List.map_eq_nil_iff.mp hc.symm
    rfl
  | cons entry rest ih =>
    cases objects' with
    | nil => cases hc
    | cons entry' rest' =>
      obtain ⟨key, object⟩ := entry
      obtain ⟨key', object'⟩ := entry'
      obtain ⟨hentry, hrest⟩ := List.cons.inj hc
      obtain ⟨rfl, hcount⟩ := Prod.mk.inj hentry
      rw [alter, alter]
      split
      · have hsame := hchange object object' hcount
        -- The change removes both objects or neither.
        cases ho : change object <;> cases ho' : change object' <;> rw [ho, ho'] at hsame
        · exact hrest
        · cases hsame
        · cases hsame
        · rw [Option.map_some, Option.map_some, Option.some.injEq] at hsame
          simp only [Option.toList_some, List.map_cons, List.map_nil, List.cons_append,
            List.nil_append, hrest, hsame]
      · simp only [List.map_cons, ih rest' hrest]
        exact congrArg (fun n => (key, n) :: _) hcount

/-- Retaining does the same to the counts, whatever the values are. -/
theorem retain?_of_counts_eq (hc : h.counts = h'.counts) (hn : h.nextId = h'.nextId)
    (handle : Handle) :
    (h.retain? handle = none ∧ h'.retain? handle = none) ∨
    ∃ r r', h.retain? handle = some r ∧ h'.retain? handle = some r' ∧
      r.counts = r'.counts ∧ r.nextId = r'.nextId := by
  rcases get?_of_counts_eq hc handle with ⟨ho, ho'⟩ | ⟨object, object', ho, ho', -⟩
  · simp only [retain?, ho, ho', Option.map_none]
    exact .inl ⟨trivial, trivial⟩
  · simp only [retain?, ho, ho', Option.map_some]
    refine .inr ⟨_, _, rfl, rfl, counts_alter (fun o o' hcount => ?_) handle hc, hn⟩
    exact congrArg (fun n => some (n + 1)) hcount

theorem release?_of_counts_eq (hc : h.counts = h'.counts) (hn : h.nextId = h'.nextId)
    (handle : Handle) :
    (h.release? handle = none ∧ h'.release? handle = none) ∨
    ∃ value value' r r', h.release? handle = some (value, r) ∧
      h'.release? handle = some (value', r') ∧ r.counts = r'.counts ∧ r.nextId = r'.nextId := by
  rcases get?_of_counts_eq hc handle with ⟨ho, ho'⟩ | ⟨object, object', ho, ho', -⟩
  · simp only [release?, ho, ho', Option.map_none]
    exact .inl ⟨trivial, trivial⟩
  · simp only [release?, ho, ho', Option.map_some]
    refine .inr ⟨_, _, _, _, rfl, rfl, counts_alter (fun o o' hcount => ?_) handle hc, hn⟩
    rw [Object.released?, Object.released?, hcount]
    split <;> rfl

end Heap

/-- What there is to see of a machine without looking at any value. -/
structure Machine.Outline where
  pc : Nat
  stack : List Handle
  counts : List (Handle × Nat)
  nextId : Nat
  /-- How many lines have been printed. -/
  lines : Nat
  deriving DecidableEq

namespace Machine

def outline (m : Machine) : Outline where
  pc := m.pc
  stack := m.stack
  counts := m.heap.counts
  nextId := m.heap.nextId
  lines := m.output.text.toList.count '\n'

/-- The machines cannot be told apart without looking at values, and can both write, or neither. -/
structure Alike (m n : Machine) : Prop where
  pc : m.pc = n.pc
  stack : m.stack = n.stack
  counts : m.heap.counts = n.heap.counts
  nextId : m.heap.nextId = n.heap.nextId
  lines : m.output.text.toList.count '\n' = n.output.text.toList.count '\n'
  writeFailure : m.output.writeFailure = n.output.writeFailure

namespace Alike

variable {m n : Machine}

theorem outline (h : m.Alike n) : m.outline = n.outline := by
  rw [Machine.outline, Machine.outline, h.pc, h.stack, h.counts, h.nextId, h.lines]

/-- Faults that come up in both are reported alike. -/
theorem diagnostic (h : m.Alike n) (fault : Fault) : m.diagnostic fault = n.diagnostic fault := by
  rw [Machine.diagnostic, Machine.diagnostic, h.pc]

theorem skip (h : m.Alike n) : m.skip.Alike n.skip :=
  ⟨congrArg (· + 1) h.pc, h.stack, h.counts, h.nextId, h.lines, h.writeFailure⟩

/-- With another stack, and other heaps that are alike. -/
theorem update (h : m.Alike n) {stack stack' : List Handle} (hstack : stack = stack')
    {heap heap' : Heap} (hcounts : heap.counts = heap'.counts)
    (hnext : heap.nextId = heap'.nextId) :
    { m with stack, heap }.Alike { n with stack := stack', heap := heap' } :=
  ⟨h.pc, hstack, hcounts, hnext, h.lines, h.writeFailure⟩

theorem pushValue (h : m.Alike n) (value value' : Int64) :
    (m.pushValue value).Alike (n.pushValue value') := by
  rw [Machine.pushValue, Machine.pushValue, h.stack, h.nextId]
  exact h.update rfl (congrArg (_ :: ·) h.counts) rfl

end Alike

end Machine

/-- The run has ended at a zero divisor. -/
def DividesByZero {α : Type} (r : EStateM.Result Diagnostic Machine α) : Prop :=
  (errorOf? r).map (·.fault) = some .divisionByZero

/-- The runs have come to the same end with machines that are alike, unless one of them has divided
by zero. -/
inductive Together {α β : Type} (R : α → β → Prop) :
    EStateM.Result Diagnostic Machine α → EStateM.Result Diagnostic Machine β → Prop
  | ok {a : α} {b : β} {m n : Machine} (hr : R a b) (h : m.Alike n) : Together R (.ok a m) (.ok b n)
  | error (d : Diagnostic) {m n : Machine} (h : m.Alike n) : Together R (.error d m) (.error d n)
  | left {r : EStateM.Result Diagnostic Machine α} {s : EStateM.Result Diagnostic Machine β}
    (h : DividesByZero r) : Together R r s
  | right {r : EStateM.Result Diagnostic Machine α} {s : EStateM.Result Diagnostic Machine β}
    (h : DividesByZero s) : Together R r s

section Together

variable {α β γ δ : Type}

theorem DividesByZero.bind {x : Action α} {m : Machine} (h : DividesByZero (x m))
    (f : α → Action β) : DividesByZero ((x >>= f) m) := by
  cases hx : x m with
  | ok a m' =>
    rw [hx] at h
    cases h
  | error d m' =>
    rw [hx] at h
    rw [bind_run_error hx]
    exact h

/-- What follows is only looked at after runs that have both succeeded. -/
theorem Together.bind {R : α → β → Prop} {S : γ → δ → Prop} {x : Action α} {y : Action β}
    {f : α → Action γ} {g : β → Action δ} {m n : Machine} (h : Together R (x m) (y n))
    (hf : ∀ a b m' n', x m = .ok a m' → y n = .ok b n' → R a b → m'.Alike n' →
      Together S (f a m') (g b n')) :
    Together S ((x >>= f) m) ((y >>= g) n) := by
  generalize hx : x m = r at h
  generalize hy : y n = s at h
  cases h with
  | ok hr halike =>
    rw [bind_run_ok hx, bind_run_ok hy]
    exact hf _ _ _ _ hx hy hr halike
  | error d halike =>
    rw [bind_run_error hx, bind_run_error hy]
    exact .error d halike
  | left h => exact .left (DividesByZero.bind (hx ▸ h) f)
  | right h => exact .right (DividesByZero.bind (hy ▸ h) g)

/-- From machines that are alike, the actions come to the same end. -/
def Tandem (R : α → β → Prop) (x : Action α) (y : Action β) : Prop :=
  ∀ m n, m.Alike n → Together R (x m) (y n)

namespace Tandem

variable {R : α → β → Prop} {S : γ → δ → Prop}

theorem bind {x : Action α} {y : Action β} {f : α → Action γ} {g : β → Action δ}
    (hx : Tandem R x y) (hf : ∀ a b, R a b → Tandem S (f a) (g b)) :
    Tandem S (x >>= f) (y >>= g) :=
  fun m n h => (hx m n h).bind fun a b m' n' _ _ hr h' => hf a b hr m' n' h'

theorem pure {a : α} {b : β} (h : R a b) : Tandem R (pure a : Action α) (pure b : Action β) :=
  fun _ _ halike => .ok h halike

theorem fail (fault : Fault) :
    Tandem R (Action.fail fault : Action α) (Action.fail fault : Action β) := by
  intro m n h
  rw [Action.fail_run, Action.fail_run, h.diagnostic]
  exact .error _ h

theorem pushValue (value value' : Int64) :
    Tandem (fun _ _ => True) (Action.pushValue value) (Action.pushValue value') :=
  fun _ _ h => .ok trivial (h.pushValue value value')

/-- The values that are taken may be any. -/
theorem pop : Tandem (fun _ _ => True) Action.pop Action.pop := by
  intro m n h
  cases hs : m.stack with
  | nil =>
    rw [Action.pop_nil hs, Action.pop_nil (h.stack ▸ hs), h.diagnostic]
    exact .error _ h
  | cons handle rest =>
    have hs' : n.stack = handle :: rest := h.stack ▸ hs
    simp only [Action.pop, get_bind_run, hs, hs', modify_bind_run]
    rcases Heap.release?_of_counts_eq h.counts h.nextId handle with
      ⟨hr, hr'⟩ | ⟨value, value', heap, heap', hr, hr', hcounts, hnext⟩
    · simp only [hr, hr']
      exact fail _ _ _ (h.update rfl h.counts h.nextId)
    · simp only [hr, hr', modify_bind_run, pure_run]
      exact .ok trivial (h.update rfl hcounts hnext)

theorem peek : Tandem Eq Action.peek Action.peek := by
  intro m n h
  cases hs : m.stack with
  | nil =>
    rw [Action.peek_nil hs, Action.peek_nil (h.stack ▸ hs), h.diagnostic]
    exact .error _ h
  | cons handle rest =>
    rw [Action.peek_cons hs, Action.peek_cons (h.stack ▸ hs)]
    exact .ok rfl h

theorem valueOf (handle : Handle) :
    Tandem (fun _ _ => True) (Action.valueOf handle) (Action.valueOf handle) := by
  intro m n h
  simp only [Action.valueOf, get_bind_run]
  rcases Heap.get?_of_counts_eq h.counts handle with ⟨ho, ho'⟩ | ⟨object, object', ho, ho', -⟩
  · simp only [ho, ho']
    exact fail _ _ _ h
  · simp only [ho, ho']
    exact .ok trivial h

theorem pushShared (handle : Handle) :
    Tandem (fun _ _ => True) (Action.pushShared handle) (Action.pushShared handle) := by
  intro m n h
  simp only [Action.pushShared, get_bind_run]
  rcases Heap.retain?_of_counts_eq h.counts h.nextId handle with
    ⟨hr, hr'⟩ | ⟨heap, heap', hr, hr', hcounts, hnext⟩
  · simp only [hr, hr']
    exact fail _ _ _ h
  · simp only [hr, hr']
    exact .ok trivial (h.update (congrArg _ h.stack) hcounts hnext)

theorem write {text text' : String}
    (hlines : text.toList.count '\n' = text'.toList.count '\n') :
    Tandem (fun _ _ => True) (Action.write text) (Action.write text') := by
  intro m n h
  simp only [Action.write, get_bind_run, h.writeFailure]
  cases n.output.writeFailure with
  | some reason => exact fail _ _ _ h
  | none =>
    refine .ok trivial ⟨h.pc, h.stack, h.counts, h.nextId, ?_, h.writeFailure⟩
    simp only [String.toList_append, List.count_append, h.lines, hlines]

/-- The operands may be any; only the operator itself may then fail, at a zero divisor. -/
theorem binary {op : Int64 → Int64 → Except Fault Int64}
    (hop : ∀ left right fault, op left right = .error fault → fault = .divisionByZero) :
    Tandem (fun _ _ => True) (Action.binary op) (Action.binary op) := by
  apply pop.bind
  intro right right' _
  apply pop.bind
  intro left left' _ m n h
  cases ho : op left right with
  | error fault =>
    obtain rfl := hop left right fault ho
    exact .left rfl
  | ok value =>
    cases ho' : op left' right' with
    | error fault =>
      obtain rfl := hop left' right' fault ho'
      exact .right rfl
    | ok value' => exact pushValue value value' m n h

end Tandem

end Together

namespace Actions

end Actions

end Scriptlet
