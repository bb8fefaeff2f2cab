namespace Scriptlet.Text

/-- The number of bytes of a text. -/
def size : List Char → Nat
  | [] => 0
  | c :: cs => c.utf8Size + size cs

@[simp] theorem size_nil : size [] = 0 := rfl

@[simp] theorem size_cons (c : Char) (cs : List Char) : size (c :: cs) = c.utf8Size + size cs :=
  rfl

@[simp] theorem size_append (as bs : List Char) : size (as ++ bs) = size as + size bs := by
  induction as with
  | nil => simp
  | cons a as ih => simp [ih, Nat.add_assoc]

theorem size_ofList (cs : List Char) : size cs = (String.ofList cs).utf8ByteSize := by
  induction cs with
  | nil => rfl
  | cons c cs ih =>
    rw [size_cons, ih, ← List.singleton_append, String.ofList_append, String.utf8ByteSize_append,
      ← String.singleton_eq_ofList, String.utf8ByteSize_singleton]

/-- The size of a string's characters is the size of the string. -/
theorem size_toList (s : String) : size s.toList = s.utf8ByteSize := by
  rw [size_ofList, String.ofList_toList]

/-- What is left of a text after its first `n` bytes. A character that is only partly among them
goes too. -/
def dropBytes : Nat → List Char → List Char
  | 0, cs => cs
  | _ + 1, [] => []
  | n + 1, c :: cs => dropBytes (n + 1 - c.utf8Size) cs

theorem dropBytes_size (as bs : List Char) : dropBytes (size as) (as ++ bs) = bs := by
  induction as with
  | nil => simp [dropBytes]
  | cons a as ih =>
    have := a.utf8Size_pos
    obtain ⟨n, hn⟩ : ∃ n, a.utf8Size + size as = n + 1 := ⟨a.utf8Size + size as - 1, by omega⟩
    rw [size_cons, hn, List.cons_append, dropBytes, show n + 1 - a.utf8Size = size as by omega, ih]

end Scriptlet.Text
