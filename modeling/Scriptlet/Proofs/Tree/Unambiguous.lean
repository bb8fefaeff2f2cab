import Scriptlet.Proofs.Tree.StatementTelling

namespace Scriptlet

/-- A block can be told by its text, if the nodes in it are distinct. -/
theorem Block.unplaced_eq_of_text {b b' : Block} (hb : b.Throughout Node.Distinct)
    (hb' : b'.Throughout Node.Distinct) (h : b.text = b'.text) : b.unplaced = b'.unplaced := by
  have htext : Stmt.script.text (.block b) ++ [] = Stmt.script.text (.block b') ++ [] :=
    congrArg (·.toList ++ []) h
  exact Stmt.block.inj (Node.tells hb hb' Text.ends_nil Text.ends_nil htext).1

/-- The text of a block is made of those of its statements. -/
theorem Block.text_eq_of_texts {b b' : Block} (h : b.body.map Stmt.text = b'.body.map Stmt.text) :
    b.text = b'.text := by
  obtain ⟨body, span⟩ := b
  obtain ⟨body', span'⟩ := b'
  have htexts : Stmt.texts body = Stmt.texts body' := by
    rw [Stmt.texts_eq_map, Stmt.texts_eq_map]
    exact h
  exact congrArg ("\x7b" ++ Render.spaced · ++ " \x7d") htexts

section Programs

variable {source source' file file' origin origin' : String} {b b' : Block} {c c' : Cursor}

/-- The nodes of a program that is read from a text are distinct, if none of them is written like
another one. -/
theorem distinct_of_parse (h : parse (tokenize source file).1 origin = .ok b c)
    (hclear : b.Throughout fun n => n.isClear = true) : b.Throughout Node.Distinct :=
  ((legible_of_parse h).and hclear).mono fun _ hn => ⟨hn.1, hn.2⟩

/-- Programs whose statements have the same texts are the same but for the places of their nodes, if
in neither of them a number is infinite or a loop has the name `_` for its condition or last
clause. -/
theorem unplaced_eq_of_texts (h : parse (tokenize source file).1 origin = .ok b c)
    (h' : parse (tokenize source' file').1 origin' = .ok b' c')
    (hclear : b.Throughout fun n => n.isClear = true)
    (hclear' : b'.Throughout fun n => n.isClear = true)
    (htexts : b.body.map Stmt.text = b'.body.map Stmt.text) : b.unplaced = b'.unplaced :=
  Block.unplaced_eq_of_text (distinct_of_parse h hclear) (distinct_of_parse h' hclear')
    (Block.text_eq_of_texts htexts)

/-- A program in two layouts, with commas and parentheses in one that the other has not. -/
theorem unplaced_eq_of_texts_layout :
    ∃ b c b' c', parse (tokenize "let x = -1.5;
        for let i = 0;; \x7b p([i, 2 * i - 1], \"a\\n\"); \x7d" "f").1 "f" = .ok b c ∧
      parse (tokenize "let x = (-1.50);
        for let i = 0; ; // again
        \x7b p([i, (2 * i) - 1,], (\"a\\n\"),); \x7d" "g").1 "g" = .ok b' c' ∧
      b ≠ b' ∧ b.unplaced = b'.unplaced := by
  have hrun : (match parse (tokenize "let x = -1.5;
        for let i = 0;; \x7b p([i, 2 * i - 1], \"a\\n\"); \x7d" "f").1 "f" with
      | .ok b _ =>
        match parse (tokenize "let x = (-1.50);
        for let i = 0; ; // again
        \x7b p([i, (2 * i) - 1,], (\"a\\n\"),); \x7d" "g").1 "g" with
        | .ok b' _ =>
          Node.within Node.isClear 10 (.statement (.block b)) &&
            (Node.within Node.isClear 10 (.statement (.block b')) &&
            (decide (b.body.map Stmt.text = b'.body.map Stmt.text) &&
            decide (b.span ≠ b'.span)))
        | .error _ _ => false
      | .error _ _ => false) = true := by
    decide +kernel
  split at hrun
  · rename_i b c h
    split at hrun
    · rename_i b' c' h'
      simp only [Bool.and_eq_true, decide_eq_true_eq] at hrun
      obtain ⟨hclear, hclear', htexts, hspan⟩ := hrun
      refine ⟨b, c, b', c', h, h', fun heq => hspan (congrArg Block.span heq), ?_⟩
      exact unplaced_eq_of_texts h h' (Node.throughout_of_within hclear)
        (Node.throughout_of_within hclear') htexts
    · cases hrun
  · cases hrun

end Programs

-- Without the condition on numbers two trees have one text, and so without that on clauses.
example : (Expr.float (.ofMagnitude false Binary64.infinity) default).text =
    (Expr.symbol "inf" default).text := by
  decide +kernel

example (body : Stmt) : (Stmt.loop none (some (.symbol "_" default)) none body default).text =
    (Stmt.loop none none none body default).text :=
  rfl

end Scriptlet
