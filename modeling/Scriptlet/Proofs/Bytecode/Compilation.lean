import Scriptlet.Bytecode.Compile
import Scriptlet.Proofs.Bytecode.Evaluation
import Scriptlet.Proofs.Machine.Instruction

namespace Scriptlet

open Bytecode Arithmetic Opcode Actions

namespace Arithmetic

theorem toInt_eq_zero_iff (b : Int64) : b.toInt = 0 ↔ b = 0 := by
  rw [← Int64.toInt_zero, Int64.toInt_inj]

theorem combine?_slash (a b : Int64) :
    combine? .slash a b = if b = 0 then none else some (a / b) := by
  have hq : Int64.ofInt (a.toInt.tdiv b.toInt) = a / b := by
    rw [Int64.ofInt_eq_iff_bmod_eq_toInt, Int64.toInt_div]
  simp only [combine?, toInt_eq_zero_iff, hq]

theorem combine?_percent (a b : Int64) :
    combine? .percent a b = if b = 0 then none else some (a % b) := by
  have hr : Int64.ofInt (a.toInt.tmod b.toInt) = a % b := by
    rw [← Int64.toInt_mod, Int64.ofInt_toInt]
  simp only [combine?, toInt_eq_zero_iff, hr]

/-- The machine's operators compute the values of the source's, on the two newest objects. -/
theorem perform_operator (kind : Kind) (op : Opcode) (hop : arithmetic? kind = some op)
    (m : Machine) (a b : Handle) (stack : List Handle) (left right : Int64)
    (objects : List (Handle × Object)) (hs : m.stack = b :: a :: stack)
    (ho : m.heap.objects = (b, ⟨right, 1⟩) :: (a, ⟨left, 1⟩) :: objects) :
    op.perform m =
      let popped : Machine := { m with stack, heap := ⟨objects, m.heap.nextId⟩ }
      match combine? kind left right with
      | some value => .ok () (popped.pushValue value)
      | none => .error (popped.diagnostic .divisionByZero) popped := by
  cases kind <;> simp only [arithmetic?, Option.some.injEq, reduceCtorEq] at hop <;> subst hop <;>
    rw [perform, Action.binary_newest _ m a b stack left right objects hs ho]
  · simp only [combine?, Int64.ofInt_add, Int64.ofInt_toInt]
  · simp only [combine?, Int64.ofInt_sub, Int64.ofInt_toInt]
  · rw [combine?_slash, divide]
    by_cases hz : right = 0
    · simp only [if_pos hz]
    · simp only [if_neg hz]
  · simp only [combine?, Int64.ofInt_mul, Int64.ofInt_toInt]
  · rw [combine?_percent, remainder]
    by_cases hz : right = 0
    · simp only [if_pos hz]
    · simp only [if_neg hz]

/-- Only division and remainder can fail. -/
theorem divides_of_combine?_eq_none {kind : Kind} {op : Opcode} {a b : Int64}
    (hop : arithmetic? kind = some op) (h : combine? kind a b = none) : op ∈ [div, mod] := by
  cases kind <;> simp only [arithmetic?, Option.some.injEq, reduceCtorEq] at hop <;> subst hop <;>
    simp [combine?] at h ⊢

end Arithmetic

/-- The machine behind `size` bytes, of which only a new object on top is left. -/
def Machine.holding (m : Machine) (rest : List UInt8) (size id : Nat) (value : Int64) : Machine :=
  { m with
    pending := rest
    pc := m.pc + size
    stack := ⟨id⟩ :: m.stack
    heap := ⟨(⟨id⟩, ⟨value, 1⟩) :: m.heap.objects, id + 1⟩ }

namespace Bytecode

theorem ofExpr_binary_eq_ok {operator : Token} {left right : Expr} {span : Span}
    {code : List UInt8} (h : ofExpr (.binary operator left right span) = .ok code) :
    ∃ op first second, arithmetic? operator.kind = some op ∧ ofExpr left = .ok first ∧
      ofExpr right = .ok second ∧ code = first ++ second ++ [op.byte] := by
  simp only [ofExpr] at h
  split at h
  · rename_i op hop
    obtain ⟨first, hl, h⟩ := bind_eq_ok_iff.mp h
    obtain ⟨second, hr, h⟩ := bind_eq_ok_iff.mp h
    cases h
    exact ⟨op, first, second, hop, hl, hr, rfl⟩
  · cases h

/-- The operand byte of a literal is its value. -/
theorem byte?_eq_some {value : Int64} {operand : UInt8} (h : byte? value = some operand) :
    Int64.ofNat operand.toNat = value := by
  rw [byte?] at h
  split at h
  · rename_i hv
    have h0 : 0 ≤ value.toInt := Int64.le_iff_toInt_le.mp hv.1
    have h1 : value.toInt ≤ 255 := Int64.le_iff_toInt_le.mp hv.2
    cases h
    have hn : (UInt8.ofNat value.toInt.toNat).toNat = value.toInt.toNat := by
      rw [UInt8.toNat_ofNat']
      omega
    rw [hn, ← Int64.ofInt_eq_ofNat, Int.toNat_of_nonneg h0, Int64.ofInt_toInt]
  · cases h

theorem ofExpr_int_eq_ok {value : Int64} {span : Span} {code : List UInt8}
    (h : ofExpr (.int value span) = .ok code) :
    ∃ operand : UInt8, Int64.ofNat operand.toNat = value ∧ code = [push.byte, operand] := by
  simp only [ofExpr] at h
  split at h
  · rename_i operand hb
    cases h
    exact ⟨operand, byte?_eq_some hb, rfl⟩
  · cases h

/-- The code in front of `rest` puts the value on top, or it stops at an operator that divides by
zero, with nothing printed. -/
def Computes (m : Machine) (code rest : List UInt8) : Except Nat Int64 → Prop
  | .ok value => ∃ id, m.heap.nextId ≤ id ∧
      standard.execute m = standard.execute (m.holding rest code.length id value)
  | .error place => (∃ op ∈ [div, mod], code[place]? = some op.byte) ∧
      ∃ m', m'.output = m.output ∧ standard.execute m =
        .error ({ m with pc := m.pc + place }.diagnostic .divisionByZero) m'

section Computes

variable {m : Machine} {first second rest : List UInt8}

/-- Code that stops does so whatever is put behind it. -/
theorem Computes.append {place : Nat} (h : Computes m first (second ++ rest) (.error place)) :
    Computes m (first ++ second) rest (.error place) := by
  obtain ⟨⟨op, hop, hat⟩, m', hm, he⟩ := h
  have hlt := (List.getElem?_eq_some_iff.mp hat).1
  refine ⟨⟨op, hop, ?_⟩, m', hm, he⟩
  rw [List.getElem?_append_left hlt, hat]

/-- Behind code that puts a value on top, the place of a stop is counted on. -/
theorem Computes.behind {place : Nat} {value : Int64}
    (h : Computes m first (second ++ rest) (.ok value))
    (h' : ∀ id, Computes (m.holding (second ++ rest) first.length id value) second rest
      (.error place)) :
    Computes m (first ++ second) rest (.error (first.length + place)) := by
  obtain ⟨id, -, hrun⟩ := h
  obtain ⟨⟨op, hop, hat⟩, m', hm, he⟩ := h' id
  refine ⟨⟨op, hop, ?_⟩, m', hm, ?_⟩
  · rw [List.getElem?_append_right (Nat.le_add_right _ _), Nat.add_sub_cancel_left, hat]
  · rw [hrun, he, ← Nat.add_assoc]
    rfl

/-- Behind the code of two operands, an operator leaves its result in their place, or stops. -/
theorem Computes.operator {kind : Kind} {op : Opcode} {a b : Int64}
    (hop : arithmetic? kind = some op)
    (hleft : Computes m first (second ++ ([op.byte] ++ rest)) (.ok a))
    (hright : ∀ id, Computes (m.holding (second ++ ([op.byte] ++ rest)) first.length id a) second
      ([op.byte] ++ rest) (.ok b)) :
    Computes m (first ++ second ++ [op.byte]) rest
      (match combine? kind a b with
        | some value => .ok value
        | none => .error (first.length + second.length)) := by
  obtain ⟨i, hi, hrun⟩ := hleft
  obtain ⟨j, hj, hrun'⟩ := hright i
  let m₁ : Machine := m.holding (second ++ ([op.byte] ++ rest)) first.length i a
  let m₂ : Machine := m₁.holding ([op.byte] ++ rest) second.length j b
  let popped : Machine := { m₂ with stack := m.stack, heap := ⟨m.heap.objects, m₂.heap.nextId⟩ }
  have hperform : op.perform m₂ =
      match combine? kind a b with
      | some value => .ok () (popped.pushValue value)
      | none => .error (popped.diagnostic .divisionByZero) popped :=
    perform_operator kind op hop m₂ ⟨i⟩ ⟨j⟩ m.stack a b m.heap.objects rfl rfl
  have hexecute := execute_cons m₂ op rest rfl
  rw [hperform] at hexecute
  cases hv : combine? kind a b with
  | some value =>
    have hid : m.heap.nextId ≤ j + 1 := by
      simp only [Machine.holding] at hj
      omega
    refine ⟨j + 1, hid, ?_⟩
    rw [hrun, hrun', hexecute, hv]
    simp only [m₁, m₂, popped, Machine.holding, Machine.pushValue, Machine.skip,
      List.length_append, List.length_cons, List.length_nil, List.drop_succ_cons,
      List.singleton_append, List.drop_zero, Nat.add_assoc]
  | none =>
    have hat : (first ++ second ++ [op.byte])[first.length + second.length]? = some op.byte := by
      rw [← List.length_append, List.getElem?_concat_length]
    refine ⟨⟨op, divides_of_combine?_eq_none hop hv, hat⟩, popped, rfl, ?_⟩
    rw [hrun, hrun', hexecute, hv, ← Nat.add_assoc]
    rfl

end Computes

/-- The code of an expression, wherever it stands in a program and whatever the machine holds,
computes what the expression evaluates to. -/
theorem computes_ofExpr (e : Expr) (code rest : List UInt8) (m : Machine)
    (h : ofExpr e = .ok code) (hp : m.pending = code ++ rest) :
    code.length = codeSize e ∧ Computes m code rest (evaluate e) := by
  match e with
  | .int value span =>
    obtain ⟨operand, hv, rfl⟩ := ofExpr_int_eq_ok h
    refine ⟨rfl, m.heap.nextId, Nat.le_refl _, ?_⟩
    rw [execute_cons m push (operand :: rest) hp, perform_push m _ operand rest hp, hv]
    simp only [Machine.skip, Machine.pushValue, Machine.holding, hp]
    rfl
  | .binary operator left right span =>
    obtain ⟨op, first, second, hop, hl, hr, rfl⟩ := ofExpr_binary_eq_ok h
    rw [List.append_assoc, List.append_assoc] at hp
    obtain ⟨hfirst, hleft⟩ := computes_ofExpr left first _ m hl hp
    have hright (m' : Machine) (hp' : m'.pending = second ++ ([op.byte] ++ rest)) :=
      computes_ofExpr right second ([op.byte] ++ rest) m' hr hp'
    have hsecond := (hright { m with pending := second ++ ([op.byte] ++ rest) } rfl).1
    refine ⟨?_, ?_⟩
    · simp only [codeSize, List.length_append, List.length_cons, List.length_nil, hfirst, hsecond]
    rw [evaluate, ← hfirst, ← hsecond]
    -- The left operand stops the program, or else the right one does, or else the operator may.
    cases ha : evaluate left with
    | error place =>
      rw [ha] at hleft
      rw [List.append_assoc]
      apply Computes.append
      rwa [List.append_assoc]
    | ok a =>
      rw [ha] at hleft
      cases hb : evaluate right with
      | error place =>
        apply Computes.append
        apply hleft.behind
        intro id
        rw [← hb]
        exact (hright _ rfl).2
      | ok b =>
        apply Computes.operator hop hleft
        intro id
        rw [← hb]
        exact (hright _ rfl).2
  | .float .. | .string .. | .bool .. | .symbol .. | .unary .. | .assign .. | .member .. | .index ..
  | .call .. | .range .. | .function .. | .array .. | .arrayOf .. | .structOf .. | .construct .. =>
    cases h

/-- The code of expressions that are printed one after another. -/
def ofExprs : List Expr → Except Diagnostic (List UInt8)
  | [] => .ok []
  | e :: es => do
    let first ← ofExpr e
    let rest ← ofExprs es
    return first ++ print.byte :: rest

theorem ofExprs_cons_eq_ok {e : Expr} {es : List Expr} {code : List UInt8}
    (h : ofExprs (e :: es) = .ok code) :
    ∃ first rest, ofExpr e = .ok first ∧ ofExprs es = .ok rest ∧
      code = first ++ print.byte :: rest := by
  rw [ofExprs] at h
  obtain ⟨first, hf, h⟩ := bind_eq_ok_iff.mp h
  obtain ⟨rest, hr, h⟩ := bind_eq_ok_iff.mp h
  cases h
  exact ⟨first, rest, hf, hr, rfl⟩

theorem ofExprs_append {es fs : List Expr} {a b : List UInt8} (ha : ofExprs es = .ok a)
    (hb : ofExprs fs = .ok b) : ofExprs (es ++ fs) = .ok (a ++ b) := by
  induction es generalizing a with
  | nil =>
    cases ha
    exact hb
  | cons e es ih =>
    obtain ⟨first, rest, hf, hr, rfl⟩ := ofExprs_cons_eq_ok ha
    simp only [List.cons_append, ofExprs, hf, ih hr, bind, Except.bind, pure, Except.pure,
      List.append_assoc]

mutual

/-- Blocks leave no trace in the code. -/
theorem ofExprs_expressionsOf (s : Stmt) (code : List UInt8) (h : ofStmt s = .ok code) :
    ofExprs (expressionsOf s) = .ok code := by
  match s with
  | .expression e span =>
    rw [ofStmt] at h
    obtain ⟨first, hf, h⟩ := bind_eq_ok_iff.mp h
    cases h
    rw [expressionsOf, ofExprs, hf]
    rfl
  | .block (.mk body span) => exact ofExprs_expressionsOfAll body code h
  | .varDecl .. | .fnDecl .. | .classDecl .. | .branch .. | .loop .. | .ret .. | .importDecl .. =>
    cases h

theorem ofExprs_expressionsOfAll (ss : List Stmt) (code : List UInt8) (h : ofStmts ss = .ok code) :
    ofExprs (expressionsOfAll ss) = .ok code := by
  match ss with
  | [] =>
    cases h
    rfl
  | s :: ss =>
    rw [ofStmts] at h
    obtain ⟨first, hf, h⟩ := bind_eq_ok_iff.mp h
    obtain ⟨rest, hr, h⟩ := bind_eq_ok_iff.mp h
    cases h
    exact ofExprs_append (ofExprs_expressionsOf s first hf) (ofExprs_expressionsOfAll ss rest hr)

end

end Bytecode

theorem map_lookup_zip {α β : Type} [DecidableEq α] {keys : List α} {values : List β}
    (hn : keys.Nodup) (hl : keys.length = values.length) :
    keys.map (fun key => (keys.zip values).lookup key) = values.map some := by
  induction keys generalizing values with
  | nil => cases values with
    | nil => rfl
    | cons v vs => simp at hl
  | cons k ks ih => cases values with
    | nil => simp at hl
    | cons v vs =>
      have hn' := List.nodup_cons.mp hn
      have hrest : ks.map (fun key => ((k :: ks).zip (v :: vs)).lookup key) =
          ks.map (fun key => (ks.zip vs).lookup key) := by
        apply List.map_congr_left
        intro other hmem
        have hne : (other == k) = false := by
          rw [beq_eq_false_iff_ne]
          rintro rfl
          exact hn'.1 hmem
        simp only [List.zip_cons_cons, List.lookup_cons, hne]
      rw [List.map_cons, hrest, ih hn'.2 (Nat.succ.inj hl), List.zip_cons_cons,
        List.lookup_cons_self, List.map_cons]

/-- The machine holds these values, the top first, each as an object with a single reference, and
nothing else. -/
structure Machine.Holds (m : Machine) (values : List Int64) : Prop where
  objects : m.heap.objects = m.stack.zip (values.map (⟨·, 1⟩))
  length : m.stack.length = values.length
  nodup : m.stack.Nodup
  fresh : ∀ handle ∈ m.stack, handle.id < m.heap.nextId

namespace Machine.Holds

variable {m : Machine} {values : List Int64}

theorem load (code : List UInt8) (output : Output) : (Machine.load code output).Holds [] :=
  ⟨rfl, rfl, List.nodup_nil, fun _ h => nomatch h⟩

theorem holding (h : m.Holds values) (rest : List UInt8) (size id : Nat) (value : Int64)
    (hid : m.heap.nextId ≤ id) : (m.holding rest size id value).Holds (value :: values) where
  objects := by
    simp only [Machine.holding, h.objects, List.map_cons, List.zip_cons_cons]
  length := by simp only [Machine.holding, List.length_cons, h.length]
  nodup := by
    refine List.nodup_cons.mpr ⟨fun hmem => ?_, h.nodup⟩
    have hlt := h.fresh _ hmem
    exact absurd hlt (by simp only; omega)
  fresh := by
    intro handle hmem
    rcases List.mem_cons.mp hmem with rfl | hmem
    · exact Nat.lt_succ_self id
    · exact Nat.lt_succ_of_lt (Nat.lt_of_lt_of_le (h.fresh handle hmem) hid)

/-- Every slot of the stack leads to its own value. -/
theorem map_get? (h : m.Holds values) :
    m.stack.map m.heap.get? = values.map fun value => some ⟨value, 1⟩ := by
  have hg : m.heap.get? = fun handle => (m.stack.zip (values.map (⟨·, 1⟩))).lookup handle := by
    funext handle
    rw [Heap.get?, h.objects]
  rw [hg, map_lookup_zip h.nodup (by rw [List.length_map, h.length]), List.map_map]
  rfl

end Machine.Holds

namespace Bytecode

/-- The code of consecutive expressions prints and leaves their values, or stops in the code of one
of them. -/
theorem execute_ofExprs (es : List Expr) (code : List UInt8) (m : Machine) (held : List Int64)
    (h : ofExprs es = .ok code) (hp : m.pending = code) (hw : m.output.writeFailure = none)
    (hh : m.Holds held) :
    match (evaluateAll es).stop with
    | none => ∃ m', standard.execute m = .ok () m' ∧
        m'.output.text = m.output.text ++ lines (evaluateAll es).values ∧
        m'.Holds ((evaluateAll es).values.reverse ++ held)
    | some place => (∃ op ∈ [div, mod], code[place]? = some op.byte) ∧
        ∃ m', standard.execute m =
            .error ({ m with pc := m.pc + place }.diagnostic .divisionByZero) m' ∧
          m'.output.text = m.output.text ++ lines (evaluateAll es).values := by
  -- Generalised over the machine, since the values of earlier expressions stay on its stack.
  induction es generalizing code m held with
  | nil =>
    cases h
    exact ⟨m, execute_nil m hp, by simp [lines, evaluateAll], hh⟩
  | cons e es ih =>
    obtain ⟨first, rest, hf, hr, rfl⟩ := ofExprs_cons_eq_ok h
    obtain ⟨hsize, he⟩ := computes_ofExpr e first (print.byte :: rest) m hf hp
    rw [evaluateAll]
    cases hv : evaluate e with
    | error place =>
      rw [hv] at he
      obtain ⟨⟨op, hop, hc⟩, m', ho, he⟩ := he
      have hlt := (List.getElem?_eq_some_iff.mp hc).1
      refine ⟨⟨op, hop, ?_⟩, m', he, by simp [ho, lines]⟩
      rw [List.getElem?_append_left hlt, hc]
    | ok value =>
      rw [hv] at he
      obtain ⟨id, hid, he⟩ := he
      -- The machine behind the value's print instruction.
      let m₁ := ((m.holding (print.byte :: rest) first.length id value).print
        (toString value ++ "\n")).skip
      have he₁ : standard.execute m = standard.execute m₁ := by
        rw [he, execute_cons _ print rest rfl, perform_print _ ⟨id⟩ m.stack ⟨value, 1⟩ rfl
          (by simp [Machine.holding, Heap.get?])]
        simp only [Machine.holding, hw]
        rfl
      have hh₁ : m₁.Holds (value :: held) := by
        have := hh.holding (print.byte :: rest) first.length id value hid
        exact ⟨this.objects, this.length, this.nodup, this.fresh⟩
      have hpc : m₁.pc = m.pc + (codeSize e + 1) := by rw [← hsize]; rfl
      have hrest := ih rest m₁ (value :: held) hr rfl hw hh₁
      rw [he₁]
      simp only
      cases hs : (evaluateAll es).stop with
      | none =>
        rw [hs] at hrest
        obtain ⟨m', hm, ho, hh'⟩ := hrest
        refine ⟨m', hm, ?_, ?_⟩
        · rw [ho, lines_cons, ← String.append_assoc]
          rfl
        · rw [List.reverse_cons, List.append_assoc]
          exact hh'
      | some place =>
        rw [hs] at hrest
        obtain ⟨⟨op, hop, hc⟩, m', hm, ho⟩ := hrest
        refine ⟨⟨op, hop, ?_⟩, m', ?_, ?_⟩
        · have hle : first.length ≤ first.length + 1 + place := by omega
          have hsub : first.length + 1 + place - first.length = place + 1 := by omega
          simp only [← hsize]
          rw [List.getElem?_append_right hle, hsub]
          exact hc
        · rw [hm, hpc, Nat.add_assoc]
          rfl
        · rw [ho, lines_cons, ← String.append_assoc]
          rfl

/-- Nothing but a division by zero, and an output that refuses to be written, stops a program. -/
theorem fault_of_execute_ofExprs (es : List Expr) (code : List UInt8) (output : Output)
    (h : ofExprs es = .ok code) (d : Diagnostic) (m : Machine)
    (he : standard.execute (Machine.load code output) = .error d m) :
    d.fault = .divisionByZero ∨ ∃ reason, d.fault = .outputFailed reason := by
  cases hw : output.writeFailure with
  | none =>
    have hrun := execute_ofExprs es code (Machine.load code output) [] h rfl hw (.load code output)
    cases hs : (evaluateAll es).stop with
    | none =>
      rw [hs] at hrun
      obtain ⟨m', hm, -⟩ := hrun
      rw [hm] at he
      cases he
    | some place =>
      rw [hs] at hrun
      obtain ⟨-, m', hm, -⟩ := hrun
      rw [hm] at he
      cases he
      exact .inl rfl
  | some reason =>
    -- The first expression is as far as such a run can get.
    cases es with
    | nil =>
      cases h
      rw [execute_nil _ rfl] at he
      cases he
    | cons e es =>
      obtain ⟨first, rest, hf, hr, rfl⟩ := ofExprs_cons_eq_ok h
      obtain ⟨-, hrun⟩ := computes_ofExpr e first (print.byte :: rest)
        (Machine.load (first ++ print.byte :: rest) output) hf rfl
      cases hv : evaluate e with
      | error place =>
        rw [hv] at hrun
        obtain ⟨-, m', -, hm⟩ := hrun
        rw [hm] at he
        cases he
        exact .inl rfl
      | ok value =>
        rw [hv] at hrun
        obtain ⟨id, hid, hm⟩ := hrun
        rw [hm, execute_cons _ print rest rfl, perform_print _ ⟨id⟩ [] ⟨value, 1⟩ rfl
          (by simp [Machine.holding, Heap.get?])] at he
        simp only [Machine.holding, Machine.load, hw] at he
        cases he
        exact .inr ⟨reason, rfl⟩

end Bytecode

/-- A compiled program prints the values of its expressions and leaves them on the stack, the first
one lowest, each as an object of its own with one reference and with nothing else alive. If it
divides by zero it stops at the operator that does so first, with the values before it printed.
Nothing else stops it, unless the output refuses to be written. -/
theorem execute_compile (program : Block) (code : List UInt8) (hc : compile program = .ok code)
    (hl : code.length < 0x100000000) :
    (∀ output : Output, output.writeFailure = none →
      match (Arithmetic.run program).stop with
      | none => ∃ m, standard.execute (Machine.load code output) = .ok () m ∧
          m.output.text = output.text ++ lines (Arithmetic.run program).values ∧
          m.stack.reverse.map m.heap.get? =
            (Arithmetic.run program).values.map (fun value => some ⟨value, 1⟩) ∧
          m.stack.Nodup ∧ m.heap.size = m.stack.length
      | some place => (∃ op ∈ [div, mod], code[place]? = some op.byte) ∧
          ∃ m, standard.execute (Machine.load code output) =
              .error ⟨.divisionByZero, ⟨place, "<bytecode>"⟩⟩ m ∧
            m.output.text = output.text ++ lines (Arithmetic.run program).values) ∧
    ∀ (output : Output) (d : Diagnostic) (m : Machine),
      standard.execute (Machine.load code output) = .error d m →
        d.fault ≠ .stackUnderflow ∧ (∀ byte, d.fault ≠ .unknownOpcode byte) ∧
        (∀ instruction, d.fault ≠ .operandMissing instruction) ∧ ∀ id, d.fault ≠ .dangling id := by
  -- The program is the expressions of its statements, one behind the other.
  have hes : ofExprs (expressionsOfAll program.body) = .ok code :=
    ofExprs_expressionsOfAll program.body code hc
  refine ⟨fun output hw => ?_, fun output d m he => ?_⟩
  · have hrun := execute_ofExprs _ code (Machine.load code output) [] hes rfl hw
      (.load code output)
    simp only [Arithmetic.run]
    cases hs : (evaluateAll (expressionsOfAll program.body)).stop with
    | none =>
      rw [hs] at hrun
      obtain ⟨m, hm, ho, hh⟩ := hrun
      rw [List.append_nil] at hh
      refine ⟨m, hm, ho, ?_, hh.nodup, ?_⟩
      · rw [List.map_reverse, hh.map_get?, List.map_reverse, List.reverse_reverse]
      · rw [Heap.size, hh.objects, List.length_zip, List.length_map, hh.length, Nat.min_self]
    | some place =>
      rw [hs] at hrun
      obtain ⟨⟨op, hop, hat⟩, m, hm, ho⟩ := hrun
      have hplace := (List.getElem?_eq_some_iff.mp hat).1
      refine ⟨⟨op, hop, hat⟩, m, ?_, ho⟩
      rw [hm, Machine.diagnostic]
      simp only [Machine.load, Nat.zero_add]
      rw [Position.ofByte_of_lt _ (by omega)]
  · rcases fault_of_execute_ofExprs _ code output hes d m he with hf | ⟨reason, hf⟩
    · simp [hf]
    · simp [hf]

/-- The program `7 - 10; { 1 % (2 - 2); } 4;` prints one value and stops at its remainder. -/
theorem execute_compile_remainder_by_zero :
    let int (n : Int64) : Expr := .int n default
    let operator (kind : Kind) (left right : Expr) : Expr :=
      .binary ⟨kind, "", default⟩ left right default
    let line (e : Expr) : Stmt := .expression e default
    let program := Block.mk
      [line (operator .dash (int 7) (int 10)),
        .block (.mk [line (operator .percent (int 1) (operator .dash (int 2) (int 2)))] default),
        line (int 4)] default
    let code : List UInt8 := [0, 7, 0, 10, 3, 8, 0, 1, 0, 2, 0, 2, 3, 6, 8, 0, 4, 8]
    compile program = .ok code ∧ code.length < 0x100000000 ∧
      Arithmetic.run program = ⟨[-3], some 13⟩ ∧
      ∃ m, standard.execute (Machine.load code {}) =
          .error ⟨.divisionByZero, ⟨13, "<bytecode>"⟩⟩ m ∧
        m.output.text = "" ++ lines [-3] := by
  intro int operator line program code
  have hc : compile program = .ok code := by rfl
  have hl : code.length < 0x100000000 := by decide
  have hr : Arithmetic.run program = ⟨[-3], some 13⟩ := by rfl
  have hrun := (execute_compile program code hc hl).1 {} rfl
  rw [hr] at hrun
  exact ⟨hc, hl, hr, hrun.2⟩

end Scriptlet
