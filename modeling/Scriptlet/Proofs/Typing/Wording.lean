import Scriptlet.Proofs.Text.Script
import Scriptlet.Proofs.Token.Stream
import Scriptlet.Proofs.Typing.Annotation
import Scriptlet.Proofs.Typing.Built

namespace Scriptlet

open Text (Ends ends_nil ends_cons)

namespace Ty

section Reading

/-- The type has no struct, and its names are words. -/
abbrev Plain (t : Ty) : Prop := t.BuiltFrom Lexeme.IsWord fun _ => False

abbrev AllPlain (ts : List Ty) : Prop := AllBuiltFrom Lexeme.IsWord (fun _ => False) ts

/-- The parameters behind the first, each behind a comma. -/
def following : List Ty → List Char
  | [] => []
  | t :: ts => ',' :: ' ' :: (t.text.toList ++ following ts)

/-- Parameters as they are written. -/
def listed : List Ty → List Char
  | [] => []
  | t :: ts => t.text.toList ++ following ts

theorem toList_intercalate_texts (ts : List Ty) :
    (String.intercalate ", " (texts ts)).toList = listed ts := by
  induction ts with
  | nil => rfl
  | cons t ts ih =>
    cases ts with
    | nil => simp [texts, listed, following]
    | cons u us =>
      have hsplit : String.intercalate ", " (texts (t :: u :: us)) =
          t.text ++ ", " ++ String.intercalate ", " (texts (u :: us)) :=
        String.intercalate_cons_cons
      rw [hsplit, String.toList_append, String.toList_append, ih]
      simp [listed, following]

theorem toList_text_list (item : Ty) :
    (Ty.list item).text.toList = '[' :: ']' :: item.text.toList := by
  rw [text, String.toList_append]
  rfl

theorem toList_text_function (parameters : List Ty) (result : Ty) :
    (Ty.function parameters result).text.toList =
      "function".toList ++ '(' :: (listed parameters ++ ')' :: ':' :: ' ' :: result.text.toList) := by
  rw [text]
  simp only [String.toList_append, toList_intercalate_texts]
  simp

theorem ends_following (ts : List Ty) (rest : List Char) : Ends (following ts ++ ')' :: rest) := by
  cases ts with
  | nil => exact ends_cons (by decide) rest
  | cons t ts => exact ends_cons (by decide) _

/-- A type begins with a letter, a digit, an underscore or a bracket. -/
theorem head_text {t : Ty} (ht : t.Plain) :
    ∃ c cs, t.text.toList = c :: cs ∧ (Lexeme.isWordRest c = true ∨ c = '[') := by
  cases t with
  | named name =>
    obtain ⟨c, cs, hname⟩ := List.exists_cons_of_ne_nil ht.ne_nil
    refine ⟨c, cs, by rw [text, hname], .inl (ht.isWordRest c ?_)⟩
    rw [hname]
    exact List.mem_cons_self
  | list item => exact ⟨_, _, toList_text_list item, .inr rfl⟩
  | function parameters result =>
    exact ⟨'f', _, toList_text_function parameters result, .inl rfl⟩
  | struct => exact ht.1.elim

theorem ne_of_head {t : Ty} (ht : t.Plain) {c : Char} (hc : Lexeme.isWordRest c = false)
    (hbracket : c ≠ '[') (r s : List Char) : c :: r ≠ t.text.toList ++ s := by
  obtain ⟨d, ds, htext, hd⟩ := head_text ht
  intro h
  rw [htext] at h
  obtain ⟨rfl, -⟩ := List.cons.inj h
  rcases hd with hd | hd
  · rw [hc] at hd
    cases hd
  · exact hbracket hd

/-- A word ends where no letter, digit or underscore follows. -/
theorem word_append_inj {a b : String} (ha : Lexeme.IsWord a) {r s : List Char}
    (hb : ∀ c ∈ b.toList, Lexeme.isWordRest c = true)
    (hr : ∀ c ∈ r.head?, Lexeme.isWordRest c = false)
    (hs : ∀ c ∈ s.head?, Lexeme.isWordRest c = false) (h : a.toList ++ r = b.toList ++ s) :
    a = b ∧ r = s := by
  obtain ⟨htake, hdrop⟩ := Lexeme.span_run ha.isWordRest hr
  obtain ⟨htake', hdrop'⟩ := Lexeme.span_run hb hs
  rw [h] at htake hdrop
  exact ⟨String.toList_inj.mp (htake.symm.trans htake'), hdrop.symm.trans hdrop'⟩

/-- A name is told from a list by its first character, and from a function by what follows. -/
theorem named_append_inj {a : String} (ha : Lexeme.IsWord a) {u : Ty} (hu : u.Plain)
    {r s : List Char} (hr : Ends r) (hs : Ends s) (h : a.toList ++ r = u.text.toList ++ s) :
    Ty.named a = u ∧ r = s := by
  -- Against a function the name could only be `function`, but then a parenthesis follows it.
  cases u with
  | named b =>
    obtain ⟨rfl, hrs⟩ := word_append_inj ha hu.isWordRest (hr.not (by decide)) (hs.not (by decide)) h
    exact ⟨rfl, hrs⟩
  | list item =>
    obtain ⟨c, cs, hword⟩ := List.exists_cons_of_ne_nil ha.ne_nil
    rw [toList_text_list, hword] at h
    have hc := ha.isWordRest c (by rw [hword]; exact List.mem_cons_self)
    rw [(List.cons.inj h).1] at hc
    cases hc
  | function parameters result =>
    rw [toList_text_function, List.append_assoc] at h
    have hword : ∀ c ∈ "function".toList, Lexeme.isWordRest c = true :=
      List.all_eq_true.mp (by decide)
    obtain ⟨-, hrest⟩ := word_append_inj ha hword (hr.not (by decide)) (by simp; rfl) h
    have hopen := hr '(' (by rw [hrest]; rfl)
    exact absurd hopen (by decide)
  | struct => exact hu.1.elim

mutual

/-- In front of what may stand behind it, only one type is written in the way it is. -/
theorem text_append_inj (t u : Ty) (ht : t.Plain) (hu : u.Plain) {r s : List Char} (hr : Ends r)
    (hs : Ends s) (h : t.text.toList ++ r = u.text.toList ++ s) : t = u ∧ r = s := by
  -- Names first: only they can begin like a type of another form. The other forms differ in their
  -- first character.
  match t, u with
  | .named a, u => exact named_append_inj ht hu hr hs h
  | t, .named b =>
    obtain ⟨htu, hrs⟩ := named_append_inj hu ht hs hr h.symm
    exact ⟨htu.symm, hrs.symm⟩
  | .list t, .list u =>
    rw [toList_text_list, toList_text_list] at h
    obtain ⟨rfl, hrs⟩ := text_append_inj t u ht hu hr hs (List.cons.inj (List.cons.inj h).2).2
    exact ⟨rfl, hrs⟩
  | .function ps t, .function qs u =>
    rw [toList_text_function, toList_text_function] at h
    simp only [List.append_assoc, List.cons_append, List.append_cancel_left_eq, List.cons.injEq,
      true_and] at h
    obtain ⟨rfl, hrest⟩ := listed_append_inj ps qs ht.1 hu.1 h
    simp only [List.cons.injEq, true_and] at hrest
    obtain ⟨rfl, hrs⟩ := text_append_inj t u ht.2 hu.2 hr hs hrest
    exact ⟨rfl, hrs⟩
  | .list t, .function qs u =>
    rw [toList_text_list, toList_text_function] at h
    exact absurd (List.cons.inj h).1 (by decide)
  | .function ps t, .list u =>
    rw [toList_text_list, toList_text_function] at h
    exact absurd (List.cons.inj h).1 (by decide)
  | .struct .., _ => exact ht.1.elim
  | _, .struct .. => exact hu.1.elim

theorem listed_append_inj (ts us : List Ty) (hts : AllPlain ts) (hus : AllPlain us)
    {r s : List Char} (h : listed ts ++ ')' :: r = listed us ++ ')' :: s) : ts = us ∧ r = s := by
  -- No type begins with the parenthesis that ends a list without parameters.
  match ts, us with
  | [], [] => exact ⟨rfl, (List.cons.inj h).2⟩
  | [], u :: us =>
    rw [listed, listed, List.nil_append, List.append_assoc] at h
    exact absurd h (ne_of_head hus.1 rfl (by decide) _ _)
  | t :: ts, [] =>
    rw [listed, listed, List.nil_append, List.append_assoc] at h
    exact absurd h.symm (ne_of_head hts.1 rfl (by decide) _ _)
  | t :: ts, u :: us =>
    rw [listed, listed, List.append_assoc, List.append_assoc] at h
    obtain ⟨rfl, hrest⟩ :=
      text_append_inj t u hts.1 hus.1 (ends_following ts r) (ends_following us s) h
    obtain ⟨rfl, hrs⟩ := following_append_inj ts us hts.2 hus.2 hrest
    exact ⟨rfl, hrs⟩

theorem following_append_inj (ts us : List Ty) (hts : AllPlain ts) (hus : AllPlain us)
    {r s : List Char} (h : following ts ++ ')' :: r = following us ++ ')' :: s) :
    ts = us ∧ r = s := by
  match ts, us with
  | [], [] => exact ⟨rfl, (List.cons.inj h).2⟩
  | [], u :: us => exact absurd (List.cons.inj h).1 (by decide)
  | t :: ts, [] => exact absurd (List.cons.inj h).1 (by decide)
  | t :: ts, u :: us =>
    simp only [following, List.cons_append, List.cons.injEq, true_and, List.append_assoc] at h
    obtain ⟨rfl, hrest⟩ :=
      text_append_inj t u hts.1 hus.1 (ends_following ts r) (ends_following us s) h
    obtain ⟨rfl, hrs⟩ := following_append_inj ts us hts.2 hus.2 hrest
    exact ⟨rfl, hrs⟩

end

/-- A type without structs can be read back from its text. -/
theorem text_inj {t u : Ty} (ht : t.Plain) (hu : u.Plain) (h : t.text = u.text) : t = u := by
  have hlist : t.text.toList ++ [] = u.text.toList ++ [] := by rw [h]
  exact (text_append_inj t u ht hu ends_nil ends_nil hlist).1

end Reading

section Flat

variable {leaf struct : String → Prop}

mutual

/-- The type with the name of a struct in place of the struct. -/
def flat : Ty → Ty
  | .named name => .named name
  | .list item => .list item.flat
  | .function parameters result => .function (flatAll parameters) result.flat
  | .struct name _ => .named name

def flatAll : List Ty → List Ty
  | [] => []
  | t :: ts => t.flat :: flatAll ts

end

mutual

/-- A struct is written as its name. -/
theorem text_flat (t : Ty) : t.flat.text = t.text := by
  match t with
  | .named _ | .struct _ _ => rfl
  | .list item => rw [flat, text, text, text_flat item]
  | .function parameters result =>
    rw [flat, text, text, texts_flatAll parameters, text_flat result]

theorem texts_flatAll (ts : List Ty) : texts (flatAll ts) = texts ts := by
  match ts with
  | [] => rfl
  | t :: ts => rw [flatAll, texts, texts, text_flat t, texts_flatAll ts]

end

-- Where no name is at hand, the hypotheses are only handed on.
set_option linter.unusedSectionVars false

variable (hleaf : ∀ name, leaf name → Lexeme.IsWord name)
  (hstruct : ∀ name, struct name → Lexeme.IsWord name)
include hleaf hstruct

mutual

theorem plain_flat (t : Ty) (h : t.BuiltFrom leaf struct) : t.flat.Plain := by
  match t with
  | .named name => exact hleaf name h
  | .list item => exact plain_flat item h
  | .function parameters result =>
    exact ⟨allPlain_flatAll parameters h.1, plain_flat result h.2⟩
  | .struct name _ => exact hstruct name h.1

theorem allPlain_flatAll (ts : List Ty) (h : AllBuiltFrom leaf struct ts) :
    AllPlain (flatAll ts) := by
  match ts with
  | [] => trivial
  | t :: ts => exact ⟨plain_flat t h.1, allPlain_flatAll ts h.2⟩

end

/-- Types that are written alike differ in nothing but which of their names are classes. -/
theorem flat_eq_of_text_eq {t u : Ty} (ht : t.BuiltFrom leaf struct) (hu : u.BuiltFrom leaf struct)
    (h : t.text = u.text) : t.flat = u.flat := by
  apply text_inj (plain_flat hleaf hstruct t ht) (plain_flat hleaf hstruct u hu)
  rw [text_flat, text_flat, h]

omit hleaf hstruct

variable (hdisjoint : ∀ name, leaf name → ¬ struct name)
include hdisjoint

mutual

/-- Where every name is either a class or none, the types are the same. -/
theorem same_of_flat_eq (t u : Ty) (ht : t.BuiltFrom leaf struct) (hu : u.BuiltFrom leaf struct)
    (h : t.flat = u.flat) : t.same u = true := by
  match t, u with
  | .named a, .named b =>
    cases h
    simp [same]
  | .struct a _, .struct b _ =>
    cases h
    simp [same]
  | .named a, .struct b _ =>
    cases h
    exact absurd hu.1 (hdisjoint a ht)
  | .struct a _, .named b =>
    cases h
    exact absurd ht.1 (hdisjoint a hu)
  | .list t, .list u =>
    rw [flat, flat, list.injEq] at h
    rw [same]
    exact same_of_flat_eq t u ht hu h
  | .function ps t, .function qs u =>
    rw [flat, flat, function.injEq] at h
    rw [same, sameAll_of_flatAll_eq ps qs ht.1 hu.1 h.1, same_of_flat_eq t u ht.2 hu.2 h.2]
    rfl
  | .named _, .list _ | .named _, .function _ _ | .list _, .named _ | .list _, .function _ _
  | .list _, .struct _ _ | .function _ _, .named _ | .function _ _, .list _
  | .function _ _, .struct _ _ | .struct _ _, .list _ | .struct _ _, .function _ _ => cases h

theorem sameAll_of_flatAll_eq (ts us : List Ty) (hts : AllBuiltFrom leaf struct ts)
    (hus : AllBuiltFrom leaf struct us) (h : flatAll ts = flatAll us) :
    sameAll ts us = true := by
  match ts, us with
  | [], [] => rfl
  | [], _ :: _ | _ :: _, [] => cases h
  | t :: ts, u :: us =>
    rw [flatAll, flatAll, List.cons.injEq] at h
    rw [sameAll, same_of_flat_eq t u hts.1 hus.1 h.1, sameAll_of_flatAll_eq ts us hts.2 hus.2 h.2]
    rfl

end

end Flat

end Ty

end Scriptlet
