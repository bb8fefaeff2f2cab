import Scriptlet.Proofs.Syntax.Region
import Scriptlet.Proofs.Token.Stream

namespace Scriptlet

namespace Region

/-- The regions stand one behind the other among the tokens from place `lo` up to place `hi`. Each
runs from the start of a token to the end of the same or a later one, and its parts stand among the
tokens from the one to the other. -/
inductive Among (ts : List Token) : Nat → Nat → List Region → Prop
  | nil {lo hi} : lo ≤ hi → Among ts lo hi []
  | cons {lo i j hi first last parts rs} : lo ≤ i → i ≤ j → ts[i]? = some first →
    ts[j]? = some last → Among ts i (j + 1) parts → Among ts (j + 1) hi rs →
    Among ts lo hi (.node (first.span.cover last.span) parts :: rs)

namespace Among

variable {ts : List Token} {lo lo' mid hi hi' i j : Nat} {r a b : Region} {rs rs' : List Region}
  {first last : Token} {span : Span}

theorem le (h : Among ts lo hi rs) : lo ≤ hi := by
  induction h with
  | nil h => exact h
  | cons hlo hij _ _ _ _ _ ih => omega

theorem mono (h : Among ts lo hi rs) (hlo : lo' ≤ lo) (hhi : hi ≤ hi') : Among ts lo' hi' rs := by
  induction h generalizing lo' with
  | nil h => exact .nil (by omega)
  | cons hi hij hfirst hlast hparts _ _ ih =>
    exact .cons (Nat.le_trans hlo hi) hij hfirst hlast hparts (ih (Nat.le_refl _) hhi)

theorem append (h : Among ts lo mid rs) (h' : Among ts mid hi rs') :
    Among ts lo hi (rs ++ rs') := by
  induction h with
  | nil hle => exact h'.mono hle (Nat.le_refl _)
  | cons hlo hij hfirst hlast hparts _ _ ih => exact .cons hlo hij hfirst hlast hparts (ih h')

/-- A region runs from a token to one that is not before it. -/
theorem enclose (hij : i ≤ j) (hfirst : ts[i]? = some first) (hlast : ts[j]? = some last)
    (h : Among ts i (j + 1) rs) :
    Among ts i (j + 1) [.node (first.span.cover last.span) rs] :=
  .cons (Nat.le_refl _) hij hfirst hlast h (.nil (Nat.le_refl _))

theorem token (h : ts[i]? = some first) : Among ts i (i + 1) [first.region] :=
  enclose (Nat.le_refl _) h h (.nil (Nat.le_succ _))

/-- What stands among the tokens of a region does so among those around it. -/
theorem parts (h : Among ts lo hi [r]) : Among ts lo hi r.parts := by
  cases h with
  | cons hlo hij hfirst hlast hparts hrest => exact hparts.mono hlo hrest.le

theorem beginning (h : Among ts lo hi (a :: rs)) : ∃ i first, lo ≤ i ∧ i < hi ∧
    ts[i]? = some first ∧ a.span.start = first.span.start ∧ Among ts i hi (a :: rs) := by
  cases h with
  | @cons _ i j _ first last parts _ hlo hij hfirst hlast hparts hrest =>
    have hle := hrest.le
    exact ⟨i, first, hlo, by omega, hfirst, rfl,
      .cons (Nat.le_refl _) hij hfirst hlast hparts hrest⟩

theorem ending (h : Among ts lo hi (rs ++ [b])) : ∃ j last, lo ≤ j ∧ j < hi ∧ ts[j]? = some last ∧
    b.span.stop = last.span.stop ∧ Among ts lo (j + 1) (rs ++ [b]) := by
  -- The layout goes from the first region on, so the last one is found behind all others.
  induction rs generalizing lo with
  | nil =>
    cases h with
    | @cons _ i j _ first last parts _ hlo hij hfirst hlast hparts hrest =>
      have hle := hrest.le
      exact ⟨j, last, by omega, by omega, hlast, rfl,
        .cons hlo hij hfirst hlast hparts (.nil (Nat.le_refl _))⟩
  | cons r rs ih =>
    cases h with
    | @cons _ i j _ first last parts _ hlo hij hfirst hlast hparts hrest =>
      obtain ⟨k, t, hle, hlt, ht, hstop, hrest⟩ := ih hrest
      exact ⟨k, t, by omega, hlt, ht, hstop, .cons hlo hij hfirst hlast hparts hrest⟩

/-- A region from its first part up to a token behind all its parts. -/
theorem upto (h : Among ts lo hi (a :: rs)) (hle : hi ≤ j + 1) (hlast : ts[j]? = some last) :
    Among ts lo (j + 1) [.node ⟨a.span.start, last.span.stop⟩ (a :: rs)] := by
  obtain ⟨i, first, hlo, hlt, hfirst, hstart, h⟩ := h.beginning
  rw [hstart]
  exact (enclose (by omega) hfirst hlast (h.mono (Nat.le_refl _) hle)).mono hlo (Nat.le_refl _)

/-- A region from its first part to its last. -/
theorem cover (h : Among ts lo hi (a :: rs ++ [b])) :
    Among ts lo hi [.node (a.span.cover b.span) (a :: rs ++ [b])] := by
  obtain ⟨j, last, -, hlt, hlast, hstop, h⟩ := h.ending
  rw [Span.cover, hstop]
  exact (h.upto (Nat.le_refl _) hlast).mono (Nat.le_refl _) hlt

end Among

end Region

namespace Stream

variable {source file : String} {ts : List Token} {i j : Nat} {t u : Token}

/-- A token ends before those behind it start. -/
theorem stop_le_start (h : Stream source file ts) (hij : i < j) (ht : ts[i]? = some t)
    (hu : ts[j]? = some u) : t.span.stop.offset ≤ u.span.start.offset := by
  obtain ⟨hi, rfl⟩ := List.getElem?_eq_some_iff.mp ht
  obtain ⟨hj, rfl⟩ := List.getElem?_eq_some_iff.mp hu
  exact List.pairwise_iff_getElem.mp h.ordered i j hi hj hij

theorem start_le_start (h : Stream source file ts) (hij : i ≤ j) (ht : ts[i]? = some t)
    (hu : ts[j]? = some u) : t.span.start.offset ≤ u.span.start.offset := by
  rcases Nat.lt_or_eq_of_le hij with hij | rfl
  · have hforward := h.forward t (List.mem_of_getElem? ht)
    exact Nat.le_trans hforward (h.stop_le_start hij ht hu)
  · rw [Option.some.inj (ht.symm.trans hu)]

theorem stop_le_stop (h : Stream source file ts) (hij : i ≤ j) (ht : ts[i]? = some t)
    (hu : ts[j]? = some u) : t.span.stop.offset ≤ u.span.stop.offset := by
  rcases Nat.lt_or_eq_of_le hij with hij | rfl
  · have hforward := h.forward u (List.mem_of_getElem? hu)
    exact Nat.le_trans (h.stop_le_start hij ht hu) hforward
  · rw [Option.some.inj (ht.symm.trans hu)]

end Stream

/-- The stretch lies in the source. -/
structure Span.Within (source file : String) (s : Span) : Prop where
  files : s.start.file = file ∧ s.stop.file = file
  forward : s.start.offset ≤ s.stop.offset
  inside : s.stop.offset ≤ source.utf8ByteSize

/-- The regions lie in the stretch one behind the other. -/
structure Span.Encloses (s : Span) (parts : List Region) : Prop where
  inside : ∀ r ∈ parts,
    s.start.offset ≤ r.span.start.offset ∧ r.span.stop.offset ≤ s.stop.offset
  ordered : parts.Pairwise fun r r' => r.span.stop.offset ≤ r'.span.start.offset

namespace Region

/-- The region runs from the start of one token of its source to the end of the same or a later one,
and encloses its parts, which nest in the same way. -/
inductive Nests (source file : String) (ts : List Token) : Region → Prop
  | node {i j : Nat} {first last : Token} {parts : List Region} : i ≤ j →
    ts[i]? = some first → ts[j]? = some last →
    (first.span.cover last.span).Within source file →
    (first.span.cover last.span).Encloses parts → (∀ r ∈ parts, Nests source file ts r) →
    Nests source file ts (.node (first.span.cover last.span) parts)

/-- The first and the last token of a region that stands among others. -/
theorem Among.bounds {ts : List Token} {lo hi : Nat} {rs : List Region} (h : Among ts lo hi rs) :
    ∀ r ∈ rs, ∃ i j first last, lo ≤ i ∧ j < hi ∧ ts[i]? = some first ∧ ts[j]? = some last ∧
      r.span = first.span.cover last.span := by
  induction h with
  | nil => exact fun _ hr => nomatch hr
  | @cons lo i j hi first last parts rs hlo hij hfirst hlast _ hrest _ ih =>
    intro r hr
    rcases List.mem_cons.mp hr with rfl | hr
    · exact ⟨i, j, first, last, hlo, hrest.le, hfirst, hlast, rfl⟩
    · obtain ⟨i', j', first', last', hi', hj', hbounds⟩ := ih r hr
      exact ⟨i', j', first', last', by omega, hj', hbounds⟩

theorem Among.nests {source file : String} {ts : List Token} (hts : Stream source file ts)
    {lo hi : Nat} {rs : List Region} (h : Among ts lo hi rs) :
    (∀ r ∈ rs, r.Nests source file ts) ∧
      rs.Pairwise fun r r' => r.span.stop.offset ≤ r'.span.start.offset := by
  -- On the layout, where a region's parts and the regions behind it stand apart: places of tokens
  -- become offsets by the order of the tokens in the source.
  induction h with
  | nil => exact ⟨fun _ hr => absurd hr List.not_mem_nil, .nil⟩
  | @cons lo i j hi first last parts rs hlo hij hfirst hlast hparts hrest ihparts ihrest =>
    have hspan : (first.span.cover last.span).Within source file := by
      have hf := List.mem_of_getElem? hfirst
      have hl := List.mem_of_getElem? hlast
      refine ⟨⟨(hts.files _ hf).1, (hts.files _ hl).2⟩, ?_, hts.within _ hl⟩
      exact Nat.le_trans (hts.forward _ hf) (hts.stop_le_stop hij hfirst hlast)
    have hinside : ∀ r ∈ parts, first.span.start.offset ≤ r.span.start.offset ∧
        r.span.stop.offset ≤ last.span.stop.offset := by
      intro r hr
      obtain ⟨i', j', first', last', hi', hj', hfirst', hlast', hspan'⟩ := hparts.bounds r hr
      rw [hspan']
      exact ⟨hts.start_le_start hi' hfirst hfirst',
        hts.stop_le_stop (Nat.le_of_lt_succ hj') hlast' hlast⟩
    constructor
    · intro r hr
      rcases List.mem_cons.mp hr with rfl | hr
      · exact .node hij hfirst hlast hspan ⟨hinside, ihparts.2⟩ ihparts.1
      · exact ihrest.1 r hr
    · refine .cons (fun r hr => ?_) ihrest.2
      obtain ⟨i', j', first', last', hi', -, hfirst', -, hspan'⟩ := hrest.bounds r hr
      rw [hspan']
      exact hts.stop_le_start hi' hlast hfirst'

end Region

/-- At the position one of the tokens begins or ends. -/
def Edge (ts : List Token) (p : Position) : Prop :=
  ∃ t ∈ ts, p = t.span.start ∨ p = t.span.stop

/-- At every depth, the edges of regions that stand among tokens are those of the tokens. -/
theorem Region.Among.marked {ts : List Token} {lo hi : Nat} {rs : List Region}
    (h : Among ts lo hi rs) : ∀ r ∈ rs, r.Marked (Edge ts) := by
  induction h with
  | nil => exact fun _ hr => nomatch hr
  | @cons lo i j hi first last parts rs _ _ hfirst hlast _ _ ihparts ihrest =>
    have hstart : Edge ts first.span.start := ⟨_, List.mem_of_getElem? hfirst, .inl rfl⟩
    have hstop : Edge ts last.span.stop := ⟨_, List.mem_of_getElem? hlast, .inr rfl⟩
    intro r hr
    rcases List.mem_cons.mp hr with rfl | hr
    · exact .node hstart hstop ihparts
    · exact ihrest r hr

theorem Edge.inside {source file : String} {p : Position} (h : Edge (tokenize source file).1 p) :
    p.Inside source file := by
  obtain ⟨t, ht, rfl | rfl⟩ := h
  · exact (inside_tokenize source file t ht).1
  · exact (inside_tokenize source file t ht).2

end Scriptlet
