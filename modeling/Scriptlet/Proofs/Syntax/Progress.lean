import Scriptlet.Proofs.Syntax.CorrectPrefix

namespace Scriptlet

open Scriptlet.Parser

namespace Cursor

variable {c c' : Cursor} {u : List Token}

/-- A cursor stands on a token of its sequence. -/
theorem getElem?_index (c : Cursor) : c.tokens[c.index]? = some c.current := by
  rw [tokens, index, ← List.length_reverse, List.getElem?_append_right (Nat.le_refl _),
    Nat.sub_self, List.getElem?_cons_zero]

theorem Passes.tokens (h : c.Passes u c') : c'.tokens = c.tokens := by
  change c'.passed.reverse ++ c'.rest = c.passed.reverse ++ c.rest
  rw [h.passed, h.rest, List.reverse_append, List.reverse_reverse, List.append_assoc]

theorem Passes.index (h : c.Passes u c') : c'.index = c.index + u.length := by
  rw [Cursor.index, Cursor.index, h.passed, List.length_append, List.length_reverse,
    Nat.add_comm]

theorem ended_ofTokens (file : String) (ts : List Token) : (ofTokens file ts).Ended := by
  obtain ⟨us, hrest, -, hlast⟩ := exists_rest_ofTokens file ts
  rw [Ended, hrest]
  exact hlast

theorem getLast?_tokens (c : Cursor) : c.tokens.getLast? = c.rest.getLast? := by
  rw [tokens, rest, List.getLast?_append, List.getLast?_cons]
  rfl

/-- Where the sequence ends is the same for every cursor on it. -/
theorem Ended.of_tokens (h : c.Ended) (ht : c'.tokens = c.tokens) : c'.Ended := by
  rw [Ended, ← getLast?_tokens, ht, getLast?_tokens]
  exact h

end Cursor

namespace Parser

variable {ι α : Type}

/-- A call ends by itself. It leaves the cursor on a token of the same sequence, not before the one
it began at, and at least so many tokens behind it if it succeeds. -/
structure Proceeds (least : Nat) (c : Cursor) (r : EStateM.Result Diagnostic Cursor α) : Prop where
  tokens : (stateAfter r).tokens = c.tokens
  valid : (stateAfter r).index < c.tokens.length
  onward : c.index ≤ (stateAfter r).index
  passes : ∀ {a c'}, r = .ok a c' → c.index + least ≤ c'.index
  ends : ∀ {d c'}, r = .error d c' → d.fault ≠ .noProgress

theorem Proceeds.of_passes {least : Nat} {c : Cursor} {r : EStateM.Result Diagnostic Cursor α}
    {u : List Token} (h : c.Passes u (stateAfter r))
    (hok : ∀ {a c'}, r = .ok a c' → least ≤ u.length)
    (hends : ∀ {d c'}, r = .error d c' → d.fault ≠ .noProgress) : Proceeds least c r where
  tokens := h.tokens
  valid := by
    rw [← h.tokens]
    exact (List.getElem?_eq_some_iff.mp (stateAfter r).getElem?_index).1
  onward := by rw [h.index]; exact Nat.le_add_right _ _
  passes := by
    rintro a c' rfl
    have hindex : c'.index = c.index + u.length := h.index
    have := hok rfl
    omega
  ends := hends

namespace Viable

variable {i₀ i : ι} {E : ι → Cursor → Prop} {l : Nat} {starts : Token → Prop} {next : Kind → Prop}
  {y : ι → Parser α} {c : Cursor}

theorem proceeds (h : Viable i₀ E l starts next y) (hc : c.Ended) (hs : starts c.current)
    (hE : E i₀ c) : Proceeds l c (y i₀ c) := by
  cases hrun : y i₀ c with
  | ok a c' =>
    obtain ⟨u, hu, hl, -⟩ := h.ok hc hs hE hrun
    exact .of_passes hu (fun _ => hl) nofun
  | error d c' =>
    obtain ⟨u, hu, hd, -⟩ := h.error hc hs hE hrun
    refine .of_passes hu nofun ?_
    rintro _ _ ⟨⟩ hfault
    have htoken := hd.token
    rw [hfault] at htoken
    cases htoken

/-- Where two indices are enough, they give the same. -/
theorem eq_of_enough (h : Viable i₀ E l starts next y) (hc : c.Ended) (hs : starts c.current)
    (hE : E i₀ c) (hi : E i c) : y i c = y i₀ c := by
  cases hrun : y i₀ c with
  | ok a c' =>
    obtain ⟨u, hu, -, hok⟩ := h.ok hc hs hE hrun
    obtain ⟨b, rfl, hb⟩ := hok i c c' rfl hu (.inl rfl) hi
    exact hb
  | error d c' =>
    obtain ⟨u, hu, -, herror, -⟩ := h.error hc hs hE hrun
    exact herror i c c' rfl hu rfl hi

end Viable

end Parser

namespace Grammar

/-- The levels at the cursor are enough for a part of the language: it reads the same with any more
of them, and takes a token if it succeeds. -/
structure Settles {α : Type} (part : Level → Parser α) (c : Cursor) : Prop where
  settled : ∀ n, 2 * c.ahead.length + 4 ≤ n →
    part (standard.level n) c = part (standard.levelAt c) c
  proceeds : Proceeds 1 c (part (standard.levelAt c) c)

theorem Settles.of_viable {α : Type} {part : Level → Parser α} {k : Nat} (hk : k ≤ 3)
    {next : Kind → Prop} {c : Cursor}
    (h : ∀ n, Viable n (Cursor.Room k) 1 (fun _ => True) next fun m => part (standard.level m))
    (hc : c.Ended) : Settles part c := by
  have hroom (n : Nat) (hn : 2 * c.ahead.length + 4 ≤ n) : Cursor.Room k n c := by
    rw [Cursor.Room, Cursor.length_rest]
    omega
  have hat := hroom _ (Nat.le_refl _)
  exact ⟨fun n hn => (h _).eq_of_enough hc trivial hat (hroom n hn), (h _).proceeds hc trivial hat⟩

/-- Types at every power: no type of the language is continued. -/
theorem viable_type (power : Power) (n : Nat) :
    Viable n (Cursor.Room 1) 1 (fun _ => True) (fun _ => True)
      fun m => (standard.level m).type power := by
  cases n with
  | zero => exact .of_no_level
  | succ n => exact ((parts_level n).viable_readType power).lift fun _ => rfl

theorem viable_block (n : Nat) :
    Viable n (Cursor.Room 2) 1 (fun _ => True) (fun _ => True)
      fun m => (standard.level m).block :=
  ((parts_level n).block (suffices_room 2)).viable.least (by decide)

theorem viable_parameters (n : Nat) :
    Viable n (Cursor.Room 2) 1 (fun _ => True) (fun _ => True)
      fun m => (standard.level m).parameters := by
  have hitem : Phrase n Cursor.Inside 3 (fun _ => True) [.identifier, .colon, .intType]
      fun m => (standard.level m).parameter := (parts_level n).parameter
  have hparameters : Phrase n (Cursor.Room 2) 2 (fun _ => True) [.openParen, .closeParen]
      fun m => (standard.level m).parameters :=
    .behind (suffices_room 2) .openParen (by decide) fun _ =>
      phrase_listUntil hitem (by decide) (by decide) trivial
  exact hparameters.viable.least (by decide)

end Grammar

open Grammar in
/-- The parser ends on every sequence of tokens. Wherever the cursor stands in it, the constructs of
the language take at least one token if they are read, and never give one back. -/
theorem parser_proceeds (file : String) (ts : List Token) :
    Proceeds 0 (.ofTokens file ts) (parse ts file) ∧
      ∀ c : Cursor, c.tokens = (Cursor.ofTokens file ts).tokens →
        Settles Level.statement c ∧ (∀ power, Settles (·.expression power) c) ∧
          (∀ power, Settles (·.type power) c) ∧ Settles Level.block c ∧
          Settles Level.parameters c := by
  have hended := Cursor.ended_ofTokens file ts
  refine ⟨?_, fun c htokens => ?_⟩
  · have hstatements := phrase_statements.viable.proceeds hended trivial trivial
    cases hrun : standard.statements (Cursor.ofTokens file ts) with
    | ok body c =>
      rw [hrun] at hstatements
      obtain ⟨b, hb⟩ := exists_parse_eq_ok hrun
      rw [hb]
      refine ⟨hstatements.tokens, hstatements.valid, hstatements.onward, ?_, nofun⟩
      rintro _ _ ⟨⟩
      exact hstatements.passes rfl
    | error d c =>
      rw [hrun] at hstatements
      rw [parse_eq_error_iff.mpr hrun]
      refine ⟨hstatements.tokens, hstatements.valid, hstatements.onward, nofun, ?_⟩
      rintro _ _ ⟨⟩
      exact hstatements.ends rfl
  · have hc := hended.of_tokens htokens
    refine ⟨?_, fun power => ?_, fun power => ?_, ?_, ?_⟩
    · exact .of_viable (by decide) (fun n => (parts_level n).statement.viable) hc
    · exact .of_viable (by decide) (fun n => ((parts_level n).expression power).viable) hc
    · exact .of_viable (by decide) (viable_type power) hc
    · exact .of_viable (by decide) viable_block hc
    · exact .of_viable (by decide) viable_parameters hc

/-- The second of two tokens that begin nothing, with no end behind them. -/
theorem parser_proceeds_at_second_token :
    let ts : List Token := [⟨.error, "?", default⟩, ⟨.semicolon, ";", default⟩]
    let c := (Cursor.ofTokens "f" ts).advance
    c.tokens = (Cursor.ofTokens "f" ts).tokens ∧ Grammar.Settles Level.statement c := by
  intro ts c
  have htokens : c.tokens = (Cursor.ofTokens "f" ts).tokens := rfl
  exact ⟨htokens, ((parser_proceeds "f" ts).2 c htokens).1⟩

end Scriptlet
