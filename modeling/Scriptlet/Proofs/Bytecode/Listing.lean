import Mathlib.Data.List.Forall2
import Scriptlet.Bytecode.Assembly
import Scriptlet.Proofs.Bytecode.WellFormed
import Scriptlet.Proofs.Numeral.Digits
import Scriptlet.Proofs.Text.Cutting
import Scriptlet.Proofs.Token.Scanner

namespace Scriptlet

namespace Assembly

open Text Bytecode

/-- Blanks that do not end the line. -/
def IsGap (cs : List Char) : Prop := ∀ c ∈ cs, isBlank c = true ∧ c ≠ '\n'

/-- The letters of a word, any of them as capitals. -/
def InAnyCase (word letters : List Char) : Prop :=
  List.Forall₂ (fun c letter => c = letter ∨ c = letter.toUpper) word letters

/-- What can stand between two separators: blanks, or one instruction with blanks around it and in
front of its operand, which is written in decimal. -/
inductive Line : Option Instruction → List Char → Prop
  | blank {gap : List Char} (h : IsGap gap) : Line none gap
  | simple {op : Opcode} {before word after : List Char} (hop : op.hasOperand = false)
    (hbefore : IsGap before) (hword : InAnyCase word op.mnemonic.toList) (hafter : IsGap after) :
    Line (some (.simple op hop)) (before ++ (word ++ after))
  | push {operand : UInt8} {before word between after : List Char} (hbefore : IsGap before)
    (hword : InAnyCase word Opcode.push.mnemonic.toList) (hbetween : IsGap between)
    (hne : between ≠ []) (hafter : IsGap after) :
    Line (some (.push operand))
      (before ++ (word ++ (between ++ (Nat.toDigits 10 operand.toNat ++ after))))

/-- Lines with separators between them. -/
inductive Listing : List Instruction → List Char → Prop
  | last {line : Option Instruction} {text : List Char} (h : Line line text) :
    Listing line.toList text
  | next {line : Option Instruction} {text : List Char} {separator : Char}
    {instructions : List Instruction} {rest : List Char} (h : Line line text)
    (hseparator : separator = ';' ∨ separator = '\n') (hrest : Listing instructions rest) :
    Listing (line.toList ++ instructions) (text ++ separator :: rest)

theorem separates_iff (c : Char) : separates c = true ↔ c = ';' ∨ c = '\n' := by
  simp [separates]

section word

variable {word letters : List Char}

theorem InAnyCase.forall (h : InAnyCase word letters) {p : Char → Prop}
    (hp : ∀ letter ∈ letters, p letter ∧ p letter.toUpper) : ∀ c ∈ word, p c := by
  induction h with
  | nil => nofun
  | cons hc _ ih =>
    obtain ⟨hletter, hrest⟩ := List.forall_mem_cons.mp hp
    refine List.forall_mem_cons.mpr ⟨?_, ih hrest⟩
    rcases hc with rfl | rfl
    · exact hletter.1
    · exact hletter.2

theorem InAnyCase.map_toLower (h : InAnyCase word letters)
    (hlower : ∀ letter ∈ letters, letter.toLower = letter ∧ letter.toUpper.toLower = letter) :
    word.map Char.toLower = letters := by
  induction h with
  | nil => rfl
  | cons hc _ ih =>
    obtain ⟨hletter, hrest⟩ := List.forall_mem_cons.mp hlower
    rw [List.map_cons, ih hrest]
    rcases hc with rfl | rfl
    · rw [hletter.1]
    · rw [hletter.2]

/-- The letters of mnemonics are small letters. -/
theorem mnemonic_letters (op : Opcode) : ∀ letter ∈ op.mnemonic.toList,
    (letter.toLower = letter ∧ letter.toUpper.toLower = letter) ∧
    ((isBlank letter = false ∧ separates letter = false) ∧
      isBlank letter.toUpper = false ∧ separates letter.toUpper = false) := by
  rw [← List.forall_iff_forall_mem]
  cases op <;> decide

theorem ofMnemonic?_of_inAnyCase {op : Opcode} (h : InAnyCase word op.mnemonic.toList) :
    Opcode.ofMnemonic? word = some op := by
  have hlower := h.map_toLower fun letter hmem => (mnemonic_letters op letter hmem).1
  rw [Opcode.ofMnemonic?, hlower]
  cases op <;> decide

theorem visible_of_inAnyCase {op : Opcode} (h : InAnyCase word op.mnemonic.toList) :
    ∀ c ∈ word, isBlank c = false ∧ separates c = false :=
  h.forall fun letter hmem => (mnemonic_letters op letter hmem).2

theorem ne_nil_of_inAnyCase {op : Opcode} (h : InAnyCase word op.mnemonic.toList) :
    word ≠ [] := by
  rintro rfl
  have hnil := List.forall₂_nil_left_iff.mp h
  cases op <;> cases hnil

end word

section operand

theorem visible_of_mem_toDigits {n : Nat} :
    ∀ c ∈ Nat.toDigits 10 n, isBlank c = false ∧ separates c = false := by
  intro c hc
  have hdigit := Numeral.isDigit_of_mem_toDigits hc
  refine ⟨Lexeme.isBlank_of_isDigit hdigit, ?_⟩
  rw [Bool.eq_false_iff]
  intro hs
  rcases (separates_iff c).mp hs with rfl | rfl
  · exact absurd hdigit (by decide)
  · exact absurd hdigit (by decide)

/-- A byte in decimal is an operand. -/
theorem operand_toDigits (byte : UInt8) :
    operand (Nat.toDigits 10 byte.toNat) = .ok byte := by
  have hlt := byte.toNat_lt
  have htoInt : (Int64.ofNat byte.toNat).toInt = byte.toNat :=
    Int64.toInt_ofNat_of_lt (by omega)
  have hfits : 0 ≤ Int64.ofNat byte.toNat ∧ Int64.ofNat byte.toNat ≤ 255 := by
    rw [Int64.le_iff_toInt_le, Int64.le_iff_toInt_le, htoInt]
    change (0 : Int) ≤ byte.toNat ∧ (byte.toNat : Int) ≤ 255
    omega
  rw [operand, Numeral.int64?_toDigits (by omega)]
  simp only [if_pos hfits, htoInt, Int.toNat_natCast, UInt8.ofNat_toNat]

end operand

section line

variable {gap : List Char}

theorem IsGap.blank (h : IsGap gap) : ∀ c ∈ gap, isBlank c = true :=
  fun c hc => (h c hc).1

/-- A semicolon is no blank. -/
theorem IsGap.joined (h : IsGap gap) : ∀ c ∈ gap, separates c = false := by
  intro c hc
  obtain ⟨hblank, hline⟩ := h c hc
  rw [Bool.eq_false_iff]
  intro hs
  rcases (separates_iff c).mp hs with rfl | rfl
  · exact absurd hblank (by decide)
  · exact hline rfl

/-- A line has no separator in it. -/
theorem Line.joined {line : Option Instruction} {text : List Char} (h : Line line text) :
    ∀ c ∈ text, separates c = false := by
  cases h with
  | blank h => exact h.joined
  | simple hop hbefore hword hafter =>
    simp only [List.forall_mem_append]
    exact ⟨hbefore.joined, fun c hc => (visible_of_inAnyCase hword c hc).2, hafter.joined⟩
  | push hbefore hword hbetween hne hafter =>
    simp only [List.forall_mem_append]
    exact ⟨hbefore.joined, fun c hc => (visible_of_inAnyCase hword c hc).2, hbetween.joined,
      fun c hc => (visible_of_mem_toDigits c hc).2, hafter.joined⟩

/-- A line assembles to its instruction. -/
theorem instruction_of_line {line : Option Instruction} {text : List Char} (h : Line line text) :
    instruction text = .ok (line.toList.flatMap Instruction.bytes) := by
  cases h with
  | blank h =>
    rw [instruction, words_blanks h.blank]
    rfl
  | @simple op before word after hop hbefore hword hafter =>
    have hvisible := fun c hc => (visible_of_inAnyCase hword c hc).1
    have hwords : words (before ++ (word ++ after)) = [word] := by
      rw [words_blanks_append hbefore.blank, words_append_blanks hafter.blank,
        words_word (ne_nil_of_inAnyCase hword) hvisible]
    simp only [instruction, hwords, ofMnemonic?_of_inAnyCase hword, hop]
    rfl
  | @push byte before word between after hbefore hword hbetween hne hafter =>
    have hvisible := fun c hc => (visible_of_inAnyCase hword c hc).1
    have hdigits := fun c hc => (visible_of_mem_toDigits (n := byte.toNat) c hc).1
    obtain ⟨blank, blanks, rfl⟩ := List.exists_cons_of_ne_nil hne
    obtain ⟨hblank, hblanks⟩ := List.forall_mem_cons.mp hbetween.blank
    have hwords : words (before ++ (word ++ (blank :: blanks ++
        (Nat.toDigits 10 byte.toNat ++ after)))) = [word, Nat.toDigits 10 byte.toNat] := by
      rw [words_blanks_append hbefore.blank, List.cons_append, words_append_blank hblank,
        words_word (ne_nil_of_inAnyCase hword) hvisible, words_blanks_append hblanks,
        words_append_blanks hafter.blank, words_word Nat.toDigits_ne_nil hdigits]
      rfl
    simp only [instruction, hwords, ofMnemonic?_of_inAnyCase hword, operand_toDigits]
    rfl

end line

/-- The pieces of a listing assemble to the bytes of its instructions, wherever they begin. -/
theorem code_of_listing {instructions : List Instruction} {text : List Char}
    (h : Listing instructions text) (offset : Nat) :
    code offset (text.splitOnP separates) = .ok (instructions.flatMap Instruction.bytes) := by
  induction h generalizing offset with
  | last h =>
    rw [List.splitOnP_eq_singleton h.joined]
    simp only [code, instruction_of_line h]
    exact congrArg Except.ok (List.append_nil _)
  | next h hseparator _ ih =>
    rw [List.splitOnP_append_cons_of_forall_mem h.joined _ ((separates_iff _).mpr hseparator)]
    simp only [code, instruction_of_line h, ih, List.flatMap_append]
    rfl

/-- Whatever is to be done can be written down. -/
theorem exists_listing (instructions : List Instruction) : ∃ text, Listing instructions text := by
  have hnone : IsGap [] := nofun
  have hplain : ∀ letters, InAnyCase letters letters := fun letters =>
    List.forall₂_same.mpr fun _ _ => .inl rfl
  induction instructions with
  | nil => exact ⟨[], .last (.blank hnone)⟩
  | cons instruction instructions ih =>
    obtain ⟨rest, hrest⟩ := ih
    have hline : ∃ text, Line (some instruction) text := by
      cases instruction with
      | simple op hop => exact ⟨_, .simple hop hnone (hplain _) hnone⟩
      | push operand =>
        have hspace : IsGap [' '] := by
          rintro _ (_ | ⟨_, ⟨⟩⟩)
          decide
        exact ⟨_, .push hnone (hplain _) hspace (List.cons_ne_nil _ _) hnone⟩
    obtain ⟨text, htext⟩ := hline
    exact ⟨_, .next htext (.inl rfl) hrest⟩

/-- The bytes of one instruction are an opcode with its operand, or none. -/
theorem wellFormed_of_instruction {text : List Char} {bytes : List UInt8}
    (h : instruction text = .ok bytes) : WellFormed bytes := by
  rw [instruction] at h
  split at h
  · cases h
    exact .nil
  · split at h
    · cases h
    · rename_i op hop
      split at h
      · cases h
      · rename_i hoperand
        cases h
        exact wellFormed_bytes (.simple op (Bool.eq_false_iff.mpr hoperand))
  · rename_i mnemonic word hwords
    split at h
    · cases h
    · rename_i op hop
      split at h
      · rename_i hoperand
        obtain rfl : op = .push := of_decide_eq_true hoperand
        cases hbyte : operand word with
        | error fault =>
          rw [hbyte] at h
          cases h
        | ok byte =>
          rw [hbyte] at h
          cases h
          exact wellFormed_bytes (.push byte)
      · cases h
  · cases h

theorem wellFormed_of_code {offset : Nat} {texts : List (List Char)} {bytes : List UInt8}
    (h : code offset texts = .ok bytes) : WellFormed bytes := by
  induction texts generalizing offset bytes with
  | nil =>
    cases h
    exact .nil
  | cons text rest ih =>
    rw [code] at h
    cases hfirst : instruction text with
    | error fault =>
      rw [hfirst] at h
      cases h
    | ok first =>
      simp only [hfirst] at h
      cases hrest : code (offset + size text + 1) rest with
      | error d =>
        rw [hrest] at h
        cases h
      | ok others =>
        rw [hrest] at h
        cases h
        exact (wellFormed_of_instruction hfirst).append (ih hrest)

end Assembly

open Assembly Bytecode Actions

/-- The code that can be assembled is the well-formed code, which is the code that consists of
instructions; and every listing of its instructions assembles to it. Compiled code is such code too.
A machine before it meets no unknown opcode and no missing operand, in whatever state it is, and
when it stops at a fault the code that is left is again such code. -/
theorem assembled_iff_wellFormed (code : List UInt8) :
    ((∃ text, assemble text = .ok code) ↔ WellFormed code) ∧
    (WellFormed code ↔ ∃ instructions : List Instruction,
      instructions.flatMap Instruction.bytes = code) ∧
    (∀ instructions : List Instruction, instructions.flatMap Instruction.bytes = code →
      (∃ text : String, Listing instructions text.toList) ∧
      ∀ text : String, Listing instructions text.toList → assemble text = .ok code) ∧
    (∀ program, compile program = .ok code → WellFormed code) ∧
    (WellFormed code → ∀ m : Machine, m.pending = code →
      EndsWhole (standard.execute m) ∧ EndsWhole (standard.run m)) := by
  have hassemble (instructions : List Instruction) (text : String)
      (h : Listing instructions text.toList) :
      assemble text = .ok (instructions.flatMap Instruction.bytes) := by
    rw [assemble, Text.splitWhere_eq_splitOnP, code_of_listing h]
  have hexists (instructions : List Instruction) :
      ∃ text : String, Listing instructions text.toList := by
    obtain ⟨text, htext⟩ := exists_listing instructions
    exact ⟨String.ofList text, by rwa [String.toList_ofList]⟩
  refine ⟨⟨?_, ?_⟩, wellFormed_iff code, ?_, fun _ => wellFormed_of_compile, ?_⟩
  · rintro ⟨text, htext⟩
    exact wellFormed_of_code htext
  · intro h
    obtain ⟨instructions, rfl⟩ := (wellFormed_iff code).mp h
    obtain ⟨text, htext⟩ := hexists instructions
    exact ⟨text, hassemble instructions text htext⟩
  · rintro instructions rfl
    exact ⟨hexists instructions, hassemble instructions⟩
  · rintro h m rfl
    exact ⟨endsWhole_execute h, endsWhole_run h⟩

-- Capitals, blanks of all sorts, empty instructions and an operand that looks like an opcode.
example : assemble " PuSh\u00a08 ;;\n\tDUP\u2003\n print;" = .ok [0, 8, 1, 8] := by
  rfl

end Scriptlet
