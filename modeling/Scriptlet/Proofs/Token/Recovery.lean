import Mathlib.Data.List.Basic
import Scriptlet.Proofs.Token.Scan

namespace Scriptlet

open Lexeme (Placed EndsLike)

/-- The text with spaces over the characters at some offsets, as many as they have bytes. -/
def Text.blankAt (hit : Nat → Bool) (offset : Nat) : List Char → List Char
  | [] => []
  | c :: cs =>
    (if hit offset then List.replicate c.utf8Size ' ' else [c]) ++
      blankAt hit (offset + c.utf8Size) cs

/-- Whether a character is cut off at this offset that begins no lexeme. -/
def unrecognisedAt (steps : List Scanner.Step) (offset : Nat) : Bool :=
  steps.any fun t => t.token.kind = .error && t.start == offset

/-- The source with spaces over every character of it that is cut off without a lexeme. -/
def blanked (source file : String) : String :=
  String.ofList (Text.blankAt (unrecognisedAt (stepsOf source file)) 0 source.toList)

namespace Text

variable {hit : Nat → Bool}

theorem blankAt_append (offset : Nat) (as bs : List Char) :
    blankAt hit offset (as ++ bs) =
      blankAt hit offset as ++ blankAt hit (offset + size as) bs := by
  induction as generalizing offset with
  | nil => rfl
  | cons a as ih =>
    rw [List.cons_append, blankAt, blankAt, ih, size_cons, List.append_assoc, Nat.add_assoc]

/-- A stretch of the text in which nothing is hit stays as it is. -/
theorem blankAt_of_not_hit {offset : Nat} {as : List Char}
    (h : ∀ n, offset ≤ n → n < offset + size as → hit n = false) :
    blankAt hit offset as = as := by
  induction as generalizing offset with
  | nil => rfl
  | cons a as ih =>
    have ha := a.utf8Size_pos
    rw [size_cons] at h
    have hfirst := h offset (Nat.le_refl _) (by omega)
    have hrest : blankAt hit (offset + a.utf8Size) as = as :=
      ih fun n hn hlt => h n (by omega) (by omega)
    rw [blankAt, hfirst, hrest]
    rfl

theorem size_blankAt (offset : Nat) (cs : List Char) : size (blankAt hit offset cs) = size cs := by
  induction cs generalizing offset with
  | nil => rfl
  | cons c cs ih =>
    rw [blankAt, size_append, ih, size_cons]
    split
    · rw [size_replicate_space]
    · rfl

end Text

/-- From this offset on, exactly the characters are hit that are found to begin no lexeme. -/
def Hits (hit : Nat → Bool) (offset : Nat) (found : List Placed) : Prop :=
  ∀ n, offset ≤ n → (hit n = true ↔ ∃ p ∈ found, p.recognised = false ∧ p.offset = n)

namespace Hits

variable {hit : Nat → Bool} {offset next n : Nat} {p : Placed} {found : List Placed}

theorem eq_false (h : Hits hit offset found) (hn : offset ≤ n)
    (hno : ∀ p ∈ found, p.recognised = false → p.offset ≠ n) : hit n = false := by
  rw [Bool.eq_false_iff]
  intro hhit
  obtain ⟨p, hp, hrecognised, hoffset⟩ := (h n hn).mp hhit
  exact hno p hp hrecognised hoffset

theorem tail (h : Hits hit offset (p :: found)) (hnext : offset ≤ next) (hp : p.offset < next) :
    Hits hit next found := by
  intro n hn
  rw [h n (by omega)]
  constructor
  · rintro ⟨q, hq, hrecognised, rfl⟩
    rcases List.mem_cons.mp hq with rfl | hq
    · omega
    · exact ⟨q, hq, hrecognised, rfl⟩
  · rintro ⟨q, hq, hrecognised, rfl⟩
    exact ⟨q, List.mem_cons_of_mem _ hq, hrecognised, rfl⟩

end Hits

namespace Scan

variable {hit : Nat → Bool} {offset : Nat} {gap text rest : List Char} {lexeme : Lexeme}
  {found : List Placed}

/-- Up to the end of the first lexeme, spaces can only be put over that one. -/
theorem blankAt_step (hcut : lexeme.CutBefore rest)
    (hfound : Scan (offset + Text.size gap + Text.size lexeme.text) rest found)
    (hhit : Hits hit offset (⟨offset + Text.size gap, lexeme⟩ :: found)) :
    Hits hit (offset + Text.size gap + Text.size lexeme.text) found ∧
      Text.blankAt hit offset (gap ++ (lexeme.text ++ rest)) =
        gap ++ ((if lexeme.kind = .error then List.replicate (Text.size lexeme.text) ' '
          else lexeme.text) ++
          Text.blankAt hit (offset + Text.size gap + Text.size lexeme.text) rest) := by
  have hsize := hcut.size_pos
  have hle := hfound.le_offset
  refine ⟨hhit.tail (by omega) (Nat.lt_add_of_pos_right hsize), ?_⟩
  have hgap : Text.blankAt hit offset gap = gap := by
    refine Text.blankAt_of_not_hit fun n hn hlt => hhit.eq_false hn fun p hp _ => ?_
    rcases List.mem_cons.mp hp with rfl | hp
    · exact Nat.ne_of_gt hlt
    · have hp := hle p hp
      omega
  rw [Text.blankAt_append, Text.blankAt_append, hgap]
  split
  · rename_i hkind
    -- What begins no lexeme is one character, and its offset is hit.
    obtain ⟨c, htext, -⟩ := hcut.of_error hkind
    have hstart : hit (offset + Text.size gap) = true := by
      refine (hhit _ (Nat.le_add_right _ _)).mpr ⟨_, List.mem_cons_self, ?_, rfl⟩
      simp [Placed.recognised, hkind]
    rw [htext, Text.blankAt, Text.blankAt, hstart, List.append_nil]
    rfl
  · rename_i hkind
    have htext : Text.blankAt hit (offset + Text.size gap) lexeme.text = lexeme.text := by
      refine Text.blankAt_of_not_hit fun n hn hlt => hhit.eq_false (by omega) fun p hp hno => ?_
      rcases List.mem_cons.mp hp with rfl | hp
      · simp [Placed.recognised, hkind] at hno
      · have hp := hle p hp
        omega
    rw [htext]

/-- Spaces over what begins no lexeme end a lexeme as it does. -/
theorem endsLike_blankAt (h : Scan offset text found) (hhit : Hits hit offset found) :
    EndsLike text (Text.blankAt hit offset text) := by
  cases h with
  | done =>
    rw [Text.blankAt_of_not_hit fun n hn _ => hhit.eq_false hn fun _ hp => nomatch hp]
    exact .same rfl id
  | @step _ gap rest lexeme found hgap hcut hfound =>
    rw [(blankAt_step hcut hfound hhit).2]
    by_cases hkind : lexeme.kind = .error
    · rw [if_pos hkind]
      by_cases hnil : gap = []
      · subst hnil
        -- The character stood directly behind, and there is a space for it now.
        obtain ⟨n, hn⟩ := Nat.exists_eq_succ_of_ne_zero hcut.size_pos.ne'
        refine .gap ?_
        rw [hn]
        rintro c ⟨⟩
        decide
      · exact hgap.endsLike hnil _ _
    · rw [if_neg hkind]
      exact hcut.endsLike hgap _

/-- Once spaces are over it, what begins no lexeme is layout. -/
theorem blank (h : Scan offset text found) (hhit : Hits hit offset found) :
    Scan offset (Text.blankAt hit offset text) (found.filter (·.recognised)) := by
  -- On what is found: the spaces join the layout in front of them, and every other lexeme has a
  -- text behind it that ends it still.
  induction h with
  | done hgap =>
    rw [Text.blankAt_of_not_hit fun n hn _ => hhit.eq_false hn fun _ hp => nomatch hp]
    exact .done hgap
  | @step offset gap rest lexeme found hgap hcut hfound ih =>
    obtain ⟨htail, htext⟩ := blankAt_step hcut hfound hhit
    rw [htext]
    by_cases hkind : lexeme.kind = .error
    · have hspaces : Layout (gap ++ List.replicate (Text.size lexeme.text) ' ') :=
        hgap.append (Layout.replicate_space _)
      have hskipped : (⟨offset + Text.size gap, lexeme⟩ : Placed).recognised = false := by
        simp [Placed.recognised, hkind]
      rw [if_pos hkind, List.filter_cons, hskipped, ← List.append_assoc]
      refine behind_layout hspaces ?_
      rw [Text.size_append, Text.size_replicate_space, ← Nat.add_assoc]
      exact ih htail
    · have hkept : (⟨offset + Text.size gap, lexeme⟩ : Placed).recognised = true := by
        simp [Placed.recognised, hkind]
      have hcut' : lexeme.CutBefore (Text.blankAt hit
          (offset + Text.size gap + Text.size lexeme.text) rest) := by
        cases hclosed : lexeme.closed with
        | true => exact hcut.congr (hfound.endsLike_blankAt htail) hclosed
        | false =>
          obtain ⟨-, rfl⟩ := hcut.of_open hclosed
          exact hcut
      rw [if_neg hkind, List.filter_cons, hkept]
      exact .step hgap hcut' (ih htail)

/-- What is cut off without a lexeme is what is found to begin none. -/
theorem hits_unrecognisedAt (file : String) :
    Hits (unrecognisedAt (found.map (·.step file))) 0 found := by
  intro n _
  rw [unrecognisedAt, List.any_map, List.any_eq_true]
  refine exists_congr fun p => and_congr_right fun _ => ?_
  simp [Placed.step, Placed.token, Placed.recognised]

/-- What is reported about the other lexemes. -/
theorem filterMap_complaint?_recognised (found : List Placed) (file : String) :
    (found.filter (·.recognised)).filterMap (·.complaint? file) =
      (found.filterMap (·.complaint? file)).filter fun d => !d.fault.isUnrecognised := by
  rw [List.filterMap_filter, List.filter_filterMap]
  refine List.filterMap_congr fun p _ => ?_
  cases hreport : p.complaint? file with
  | none => exact ite_self none
  | some d =>
    rw [Option.filter_some, (Placed.of_complaint? hreport).2, Bool.not_not]

/-- What is reported about characters that begin no lexeme. -/
theorem filterMap_complaint?_unrecognised (found : List Placed) (file : String) :
    (found.filterMap (·.complaint? file)).filter (·.fault.isUnrecognised) =
      (found.filter (!·.recognised)).map
        fun p => ⟨.unrecognised p.lexeme.value, .ofByte file p.offset⟩ := by
  rw [List.filter_filterMap, ← List.filterMap_eq_map, List.filterMap_filter]
  refine List.filterMap_congr fun p _ => ?_
  cases hrecognised : p.recognised with
  | false =>
    rw [Placed.complaint?_unrecognised hrecognised]
    rfl
  | true =>
    cases hreport : p.complaint? file with
    | none => rfl
    | some d =>
      rw [Option.filter_some, (Placed.of_complaint? hreport).2, hrecognised]
      rfl

end Scan

/-- The characters that are reported to begin no lexeme are the error tokens of the steps. With
spaces over them a source has the same tokens in the same places, and of its diagnostics those that
are about something else. -/
theorem tokenize_blanked (source file : String) :
    ((tokenize source file).2.filter (·.fault.isUnrecognised) =
      ((stepsOf source file).filter (·.token.kind = .error)).map
        fun t => ⟨.unrecognised t.token.value, .ofByte file t.start⟩) ∧
    tokenize (blanked source file) file =
      ((tokenize source file).1,
        (tokenize source file).2.filter fun d => !d.fault.isUnrecognised) := by
  obtain ⟨found, hfound⟩ := exists_scan 0 source.toList
  have hscan : Scan 0 (blanked source file).toList (found.filter (·.recognised)) := by
    rw [blanked, String.toList_ofList, hfound.stepsOf_eq]
    exact hfound.blank (Scan.hits_unrecognisedAt file)
  have hsize : (blanked source file).utf8ByteSize = source.utf8ByteSize := by
    rw [blanked, ← Text.size_ofList, Text.size_blankAt, Text.size_toList]
  rw [hscan.tokenize_eq, hfound.tokenize_eq, hsize, List.filter_filter]
  constructor
  · rw [Scan.filterMap_complaint?_unrecognised, hfound.filter_error_stepsOf_eq, List.map_map]
    rfl
  · simp only [Bool.and_self]
    rw [Scan.filterMap_complaint?_recognised]

/-- Two of the three ampersands are an operator, and the point behind them belongs to no numeral. -/
example : blanked "1é.&&&.\"é" "f" = "1  .&& .\"é" := by decide

end Scriptlet
