/-!
Things in writing, one behind the other. A script gives every thing its text; what has to be seen to
is that a thing can be told by its text wherever that stands, also where other text follows it. Then
a row of things can be told by its text too.
-/
namespace Scriptlet.Text

/-- The characters that may stand behind something written. -/
def separators : List Char := [' ', ',', ')', ']', ';']

/-- What may stand behind something written: nothing, or one of those characters first. -/
def Ends (rest : List Char) : Prop := ∀ c ∈ rest.head?, c ∈ separators

theorem ends_nil : Ends [] := fun _ hc => nomatch hc

theorem ends_cons {c : Char} (hc : c ∈ separators) (rest : List Char) : Ends (c :: rest) := by
  rintro _ ⟨⟩
  exact hc

/-- Where none of the separators is of a class, the class ends in front of them. -/
theorem Ends.not {p : Char → Bool} {rest : List Char} (h : Ends rest)
    (hp : (separators.all fun c => !p c) = true) : ∀ c ∈ rest.head?, p c = false := by
  intro c hc
  simpa using List.all_eq_true.mp hp c (h c hc)

/-- A way to write things: their texts, which of them are looked at, and what is to be told of one
by its text. -/
structure Script (α β : Type) where
  text : α → List Char
  legible : α → Prop
  meaning : α → β

namespace Script

variable {α β : Type} (w : Script α β)

/-- In front of what may stand behind it, the thing can be told from all others. -/
def Tells (a : α) : Prop :=
  ∀ ⦃b : α⦄ ⦃r s : List Char⦄, w.legible b → Ends r → Ends s → w.text a ++ r = w.text b ++ s →
    w.meaning a = w.meaning b ∧ r = s

/-- Things in a row, each behind a space. -/
def spread (as : List α) : List Char := as.flatMap fun a => ' ' :: w.text a

/-- Things in a row, with spaces between them. -/
def joined : List α → List Char
  | [] => []
  | a :: as => w.text a ++ w.spread as

/-- The text ends a row of things: there is no further thing behind a space. -/
structure Stops (rest : List Char) : Prop where
  ends : Ends rest
  stops : ∀ b s, w.legible b → Ends s → rest ≠ ' ' :: (w.text b ++ s)

variable {w} {as bs : List α} {r s : List Char}

theorem stops_cons {c : Char} (hc : c ∈ separators) (hspace : c ≠ ' ') (rest : List Char) :
    w.Stops (c :: rest) :=
  ⟨ends_cons hc rest, fun _ _ _ _ h => hspace (List.cons.inj h).1⟩

theorem spread_cons (a : α) (as : List α) :
    w.spread (a :: as) = ' ' :: (w.text a ++ w.spread as) := rfl

theorem ends_spread (hr : Ends r) (as : List α) : Ends (w.spread as ++ r) := by
  cases as with
  | nil => exact hr
  | cons a as => exact ends_cons (by decide) _

theorem ends_spread_cons (a : α) (as : List α) (rest : List Char) :
    Ends (w.spread (a :: as) ++ rest) := ends_cons (by decide) _

theorem ends_row (as : List α) (rest : List Char) : Ends (w.spread as ++ ')' :: rest) :=
  ends_spread (ends_cons (by decide) rest) as

/-- A row of things can be told by its text if each of them can. -/
theorem spread_append_inj (has : ∀ a ∈ as, w.legible a) (hbs : ∀ b ∈ bs, w.legible b)
    (htells : ∀ a ∈ as, w.Tells a) (hr : w.Stops r) (hs : w.Stops s)
    (h : w.spread as ++ r = w.spread bs ++ s) : as.map w.meaning = bs.map w.meaning ∧ r = s := by
  induction as generalizing bs with
  | nil =>
    cases bs with
    | nil => exact ⟨rfl, h⟩
    | cons b bs =>
      rw [spread_cons, List.cons_append, List.append_assoc] at h
      exact absurd h (hr.stops b _ (hbs b List.mem_cons_self) (ends_spread hs.ends bs))
  | cons a as ih =>
    obtain ⟨ha, has⟩ := List.forall_mem_cons.mp has
    obtain ⟨htell, htells⟩ := List.forall_mem_cons.mp htells
    cases bs with
    | nil =>
      rw [spread_cons, List.cons_append, List.append_assoc] at h
      exact absurd h.symm (hs.stops a _ ha (ends_spread hr.ends as))
    | cons b bs =>
      obtain ⟨hb, hbs⟩ := List.forall_mem_cons.mp hbs
      rw [spread_cons, spread_cons, List.cons_append, List.cons_append, List.append_assoc,
        List.append_assoc] at h
      obtain ⟨hab, hrest⟩ :=
        htell hb (ends_spread hr.ends as) (ends_spread hs.ends bs) (List.cons.inj h).2
      obtain ⟨hmeaning, hrs⟩ := ih has hbs htells hrest
      exact ⟨by rw [List.map_cons, List.map_cons, hab, hmeaning], hrs⟩

theorem singleton_append_inj {a b : α} (ha : w.Tells a) (hb : w.legible b) (hr : Ends r)
    (hs : Ends s) (h : w.spread [a] ++ r = w.spread [b] ++ s) : w.meaning a = w.meaning b ∧ r = s := by
  simp only [spread, List.flatMap_singleton, List.cons_append, List.cons.injEq, true_and] at h
  exact ha hb hr hs h

section Closed

variable {c : Char} (hc : c ∈ separators) (hspace : c ≠ ' ') (has : ∀ a ∈ as, w.legible a)
  (hbs : ∀ b ∈ bs, w.legible b) (htells : ∀ a ∈ as, w.Tells a)
include hc hspace has hbs htells

/-- A row may end with any separator that is no space. -/
theorem closed_inj (h : w.spread as ++ c :: r = w.spread bs ++ c :: s) :
    as.map w.meaning = bs.map w.meaning ∧ r = s := by
  obtain ⟨hmeaning, hrs⟩ := spread_append_inj has hbs htells (stops_cons hc hspace r)
    (stops_cons hc hspace s) h
  exact ⟨hmeaning, (List.cons.inj hrs).2⟩

/-- So may one with spaces between the things, if none of them begins with that separator. -/
theorem joined_inj (hfirst : ∀ b t u, w.legible b → Ends u → c :: t ≠ w.text b ++ u)
    (h : w.joined as ++ c :: r = w.joined bs ++ c :: s) :
    as.map w.meaning = bs.map w.meaning ∧ r = s := by
  cases as with
  | nil =>
    cases bs with
    | nil => exact ⟨rfl, (List.cons.inj h).2⟩
    | cons b bs =>
      rw [joined, joined, List.append_assoc] at h
      exact absurd h
        (hfirst b _ _ (hbs b List.mem_cons_self) (ends_spread (ends_cons hc s) bs))
  | cons a as =>
    cases bs with
    | nil =>
      rw [joined, joined, List.append_assoc] at h
      exact absurd h.symm
        (hfirst a _ _ (has a List.mem_cons_self) (ends_spread (ends_cons hc r) as))
    | cons b bs =>
      refine closed_inj hc hspace has hbs htells ?_
      rw [joined, joined] at h
      rw [spread_cons, spread_cons, List.cons_append, List.cons_append, h]

end Closed

/-- A thing that may be missing is a row too. -/
theorem optional_inj {c : Char} {a b : Option α} (hc : c ∈ separators) (hspace : c ≠ ' ')
    (ha : ∀ x ∈ a.toList, w.legible x) (hb : ∀ x ∈ b.toList, w.legible x)
    (htells : ∀ x ∈ a.toList, w.Tells x)
    (h : w.spread a.toList ++ c :: r = w.spread b.toList ++ c :: s) :
    a.map w.meaning = b.map w.meaning ∧ r = s := by
  obtain ⟨hmeaning, hrs⟩ := closed_inj hc hspace ha hb htells h
  refine ⟨?_, hrs⟩
  cases a with
  | none =>
    cases b with
    | none => rfl
    | some y => cases hmeaning
  | some x =>
    cases b with
    | none => cases hmeaning
    | some y => exact congrArg some (List.cons.inj hmeaning).1

/-- The texts of a row, as they are joined. -/
theorem toList_spaced (text : α → String) (htext : ∀ a, w.text a = (text a).toList) (as : List α) :
    (String.join ((as.map text).map (" " ++ ·))).toList = w.spread as := by
  induction as with
  | nil => rfl
  | cons a as ih =>
    rw [List.map_cons, List.map_cons, String.join_cons, String.toList_append, String.toList_append,
      ih, spread_cons, htext]
    rfl

theorem toList_intercalate (text : α → String) (htext : ∀ a, w.text a = (text a).toList)
    (as : List α) : (String.intercalate " " (as.map text)).toList = w.joined as := by
  induction as with
  | nil => rfl
  | cons a as ih =>
    cases as with
    | nil => simp [joined, spread, htext]
    | cons b bs =>
      have hsplit : String.intercalate " " ((a :: b :: bs).map text) =
          text a ++ " " ++ String.intercalate " " ((b :: bs).map text) :=
        String.intercalate_cons_cons
      rw [hsplit, String.toList_append, String.toList_append, ih, joined, joined, spread_cons]
      simp [htext]

end Script

end Scriptlet.Text
