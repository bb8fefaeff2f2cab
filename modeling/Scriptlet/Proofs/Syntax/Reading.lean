import Scriptlet.Grammar.Program
import Scriptlet.Proofs.Syntax.Cursor
import Scriptlet.Proofs.Syntax.Respan
import Scriptlet.Proofs.Syntax.Spelling

namespace Scriptlet

namespace Parser

variable {α β : Type} {c : Cursor} {t : Token} {ts rest : List Token}

/-- The parser succeeds, with a result that satisfies `P`, and leaves these tokens. -/
def ReadsTo (p : Parser α) (c : Cursor) (rest : List Token) (P : α → Prop) : Prop :=
  ∃ a c', p c = .ok a c' ∧ c'.rest = rest ∧ P a

theorem ReadsTo.bind {p : Parser α} {f : α → Parser β} {mid : List Token} {P : α → Prop}
    {Q : β → Prop} (hp : ReadsTo p c mid P)
    (hf : ∀ a c', P a → c'.rest = mid → ReadsTo (f a) c' rest Q) :
    ReadsTo (p >>= f) c rest Q := by
  obtain ⟨a, c', hp, hc, ha⟩ := hp
  obtain ⟨b, c'', hf, hb⟩ := hf a c' ha hc
  exact ⟨b, c'', by rw [bind_run_ok hp, hf], hb⟩

/-- When the first parser's result is known, the second one goes on with it. -/
theorem ReadsTo.next {p : Parser α} {f : α → Parser β} {mid : List Token} {a : α} {Q : β → Prop}
    (hp : ReadsTo p c mid (· = a)) (hf : ∀ c', c'.rest = mid → ReadsTo (f a) c' rest Q) :
    ReadsTo (p >>= f) c rest Q := by
  apply hp.bind
  rintro _ c' rfl hc'
  exact hf c' hc'

theorem ReadsTo.mono {p : Parser α} {P Q : α → Prop} (hp : ReadsTo p c rest P)
    (h : ∀ a, P a → Q a) : ReadsTo p c rest Q := by
  obtain ⟨a, c', hp, hc, ha⟩ := hp
  exact ⟨a, c', hp, hc, h a ha⟩

theorem readsTo_pure {a : α} {P : α → Prop} (hc : c.rest = rest) (ha : P a) :
    ReadsTo (pure a) c rest P := ⟨a, c, rfl, hc, ha⟩

theorem readsTo_get (hc : c.rest = rest) : ReadsTo get c rest (fun c' => c'.rest = rest) :=
  ⟨c, c, rfl, hc, hc⟩

theorem readsTo_current (hc : c.rest = t :: ts) : ReadsTo current c (t :: ts) (· = t) :=
  ⟨c.current, c, rfl, hc, Cursor.current_of_rest hc⟩

theorem readsTo_kind (hc : c.rest = t :: ts) : ReadsTo kind c (t :: ts) (· = t.kind) :=
  ⟨c.kind, c, rfl, hc, Cursor.kind_of_rest hc⟩

theorem readsTo_spanFrom (start : Position) (hc : c.rest = rest) :
    ReadsTo (spanFrom start) c rest (fun _ => True) := ⟨_, c, rfl, hc, trivial⟩

theorem readsTo_repetitions (hc : c.rest = rest) :
    ReadsTo repetitions c rest (· = rest.length) :=
  ⟨c.rest.length, c, rfl, hc, by rw [hc]⟩

theorem readsTo_advance (hc : c.rest = t :: ts) (hts : ts ≠ []) : ReadsTo advance c ts (· = t) :=
  ⟨c.current, c.advance, rfl, Cursor.rest_advance hc hts, Cursor.current_of_rest hc⟩

theorem readsTo_expect {k : Kind} (hc : c.rest = t :: ts) (hk : t.kind = k) (hts : ts ≠ []) :
    ReadsTo (expect k) c ts (· = t) :=
  ⟨c.current, c.advance, expect_of_kind (by rw [Cursor.kind_of_rest hc, hk]),
    Cursor.rest_advance hc hts, Cursor.current_of_rest hc⟩

theorem readsTo_expectOr {k : Kind} {d : Diagnostic} (hc : c.rest = t :: ts) (hk : t.kind = k)
    (hts : ts ≠ []) : ReadsTo (expectOr k d) c ts (· = t) :=
  ⟨c.current, c.advance, expectOr_of_kind (by rw [Cursor.kind_of_rest hc, hk]),
    Cursor.rest_advance hc hts, Cursor.current_of_rest hc⟩

theorem readsTo_require {condition : Bool} {reason : String} (hc : c.rest = rest)
    (h : condition = true) : ReadsTo (require condition reason) c rest (fun _ => True) := by
  subst h
  exact ⟨(), c, rfl, hc, trivial⟩

/-- The parser reads what `R` spells, up to `sem`, wherever it stands before a token that `next`
allows. -/
def ReadsSpelled (p : Parser α) (R : α → List Token → Prop) (sem : α → β) (next : Token → Prop)
    (n : Nat) : Prop :=
  ∀ a ts t rest c, R a ts → ts.length ≤ n → next t → c.rest = ts ++ t :: rest →
    ReadsTo p c (t :: rest) (fun b => sem b = sem a)

/-- What `R` spells begins with a token that `first` allows. -/
def Begins (R : α → List Token → Prop) (first : Token → Prop) : Prop :=
  ∀ a ts, R a ts → ∃ t us, ts = t :: us ∧ first t

section Lists

variable {item : Parser α} {R : α → List Token → Prop} {sem : α → β} {n : Nat}

theorem readsTo_separated {closing : Kind} {as : List α} {limit : Nat} {close : Token}
    (hitem : ReadsSpelled item R sem (fun t => t.kind = .comma ∨ t.kind = closing) n)
    (hfirst : Begins R (fun t => t.kind ≠ closing ∧ t.kind ≠ .eof))
    (h : Listed R as ts) (hn : ts.length ≤ n) (hclose : close.kind = closing)
    (hcomma : closing ≠ .comma) (hc : c.rest = ts ++ close :: rest)
    (hlimit : c.rest.length ≤ limit) :
    ReadsTo (separated closing item limit) c (close :: rest)
      (fun bs => bs.map sem = as.map sem) := by
  -- Each item uses up a repetition, and at least the one token that it begins with.
  induction h generalizing c limit with
  | nil =>
    obtain ⟨l, rfl⟩ := Cursor.exists_eq_succ_of_length_rest_le hlimit
    apply (readsTo_kind hc).next
    intro c hc
    apply (readsTo_kind hc).next
    intro c hc
    rw [if_pos (.inl hclose)]
    exact readsTo_pure hc rfl
  | @last a ts ha =>
    obtain ⟨l, rfl⟩ := Cursor.exists_eq_succ_of_length_rest_le hlimit
    obtain ⟨t, us, rfl, ht⟩ := hfirst a ts ha
    apply (readsTo_kind hc).next
    intro c hc
    apply (readsTo_kind hc).next
    intro c hc
    rw [if_neg (not_or.mpr ht)]
    apply (hitem a _ close rest c ha hn (.inr hclose) hc).bind
    intro b c hb hc
    apply (readsTo_kind hc).next
    intro c hc
    rw [if_neg (by rw [hclose]; exact hcomma)]
    exact readsTo_pure hc (by rw [List.map_singleton, List.map_singleton, hb])
  | @cons a as ts comma us ha hcm has ih =>
    obtain ⟨l, rfl⟩ := Cursor.exists_eq_succ_of_length_rest_le hlimit
    rw [List.append_assoc, List.cons_append] at hc
    rw [List.length_append, List.length_cons] at hn
    obtain ⟨t, vs, rfl, ht⟩ := hfirst a ts ha
    have hlen : c.rest.length = (t :: vs).length + ((us ++ close :: rest).length + 1) := by
      rw [hc, List.length_append, List.length_cons (a := comma)]
    apply (readsTo_kind hc).next
    intro c hc
    apply (readsTo_kind hc).next
    intro c hc
    rw [if_neg (not_or.mpr ht)]
    apply (hitem a _ comma _ c ha (by omega) (.inl hcm.kind) hc).bind
    intro b c hb hc
    apply (readsTo_kind hc).next
    intro c hc
    rw [if_pos hcm.kind]
    apply (readsTo_advance hc (by simp)).next
    intro c hc
    apply (ih (by omega) hc (by rw [hc]; simp only [List.length_cons] at hlen; omega)).bind
    intro bs c hbs hc
    exact readsTo_pure hc (by rw [List.map_cons, List.map_cons, hb, hbs])

theorem readsTo_listUntil {closing : Kind} {as : List α} {close : Token}
    (hitem : ReadsSpelled item R sem (fun t => t.kind = .comma ∨ t.kind = closing) n)
    (hfirst : Begins R (fun t => t.kind ≠ closing ∧ t.kind ≠ .eof))
    (h : Listed R as ts) (hn : ts.length ≤ n) (hclose : close.kind = closing)
    (hcomma : closing ≠ .comma) (hrest : rest ≠ []) (hc : c.rest = ts ++ close :: rest) :
    ReadsTo (listUntil closing item) c rest (fun bs => bs.map sem = as.map sem) := by
  apply (readsTo_repetitions hc).next
  intro c hc
  apply (readsTo_separated hitem hfirst h hn hclose hcomma hc (Nat.le_of_eq (by rw [hc]))).bind
  intro bs c hbs hc
  apply (readsTo_expect hc hclose hrest).next
  intro c hc
  exact readsTo_pure hc hbs

theorem readsTo_manyUntil {stops : Kind → Bool} {next : Token → Prop} {as : List α} {limit : Nat}
    (hitem : ReadsSpelled item R sem next n)
    (hfirst : Begins R (fun t => stops t.kind = false ∧ next t)) (h : Chained R as ts)
    (hn : ts.length ≤ n) (ht : stops t.kind = true) (hnext : next t)
    (hc : c.rest = ts ++ t :: rest) (hlimit : c.rest.length ≤ limit) :
    ReadsTo (manyUntil stops item limit) c (t :: rest) (fun bs => bs.map sem = as.map sem) := by
  induction h generalizing c limit with
  | nil =>
    obtain ⟨l, rfl⟩ := Cursor.exists_eq_succ_of_length_rest_le hlimit
    apply (readsTo_kind hc).next
    intro c hc
    rw [if_pos ht]
    exact readsTo_pure hc rfl
  | @cons a as ts us ha has ih =>
    obtain ⟨l, rfl⟩ := Cursor.exists_eq_succ_of_length_rest_le hlimit
    rw [List.append_assoc] at hc
    rw [List.length_append] at hn
    obtain ⟨u, vs, rfl, hu, -⟩ := hfirst a ts ha
    have hlen : c.rest.length = (u :: vs).length + (us ++ t :: rest).length := by
      rw [hc, List.length_append]
    apply (readsTo_kind hc).next
    intro c hc
    rw [if_neg (by rw [hu]; decide)]
    -- The item is followed by the next item or by the token that stops.
    obtain ⟨v, ws, hv, hvn⟩ : ∃ v ws, us ++ t :: rest = v :: ws ∧ next v := by
      cases has with
      | nil => exact ⟨t, rest, rfl, hnext⟩
      | @cons a' as' ts' us' ha' _ =>
        obtain ⟨v, ws, rfl, -, hv⟩ := hfirst a' ts' ha'
        exact ⟨v, _, rfl, hv⟩
    rw [hv] at hc hlen
    apply (hitem a _ v ws c ha (by omega) hvn hc).bind
    intro b c hb hc
    rw [← hv] at hc hlen
    apply (ih (by omega) hc (by rw [hc]; simp only [List.length_cons] at hlen; omega)).bind
    intro bs c hbs hc
    exact readsTo_pure hc (by rw [List.map_cons, List.map_cons, hb, hbs])

end Lists

end Parser

end Scriptlet
