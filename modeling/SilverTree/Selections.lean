import SilverTree.DoubleClick

/-!
# The selection from everywhere in it

A word is selected by a double click on any of its characters.  A string need not be: the
loop to the left skips what a backslash takes with it, and the loop to the right does not,
so that a caret further to the left can end at other quotes.

## Main definitions

* `SelectedFromEverywhere` — every caret in a range selects it.
* `Plain` — what stands between two quotes does not mislead the loops.

## Main results

* `doubleClicked_everywhere_iff` — **when a double click anywhere in a selection selects
  it again.**
-/

namespace SilverTree

namespace XMLDoubleClickStrategy

/-- Every caret in the range selects the range. -/
def SelectedFromEverywhere (isJavaIdentifierPart : JChar → Bool) (text : Text)
    (r : SelectedRange) : Prop :=
  ∀ q : ℕ, r.offset ≤ q → (q : ℤ) < r.offset + r.length →
    doubleClicked isJavaIdentifierPart text q = some r

/-- Nothing stops the loops between the positions `i` and `j`, and no backslash follows
`i`, which would take it along. -/
structure Plain (text : Text) (i j : ℕ) : Prop where
  passes : ∀ k, i < k → k < j → ∀ c, text[k]? = some c → stopsComment c = false
  unescaped : text[i + 1]? ≠ some backslash

/-- The characters of a word neither stop the loops for the quotes nor escape another. -/
def WordsPass (isJavaIdentifierPart : JChar → Bool) : Prop :=
  ∀ c, isJavaIdentifierPart c = true → stopsComment c = false ∧ c ≠ backslash

theorem ne_quote_of_not_stops {c : JChar} (h : stopsComment c = false) : c ≠ quote := by
  rintro rfl
  rw [stopsComment_quote] at h
  cases h

section Enclosed

variable {text : Text} {i j p : ℕ}

/-- No quotes enclose a quote. -/
theorem Enclosed.off_quote (h : Enclosed text i j p) : text[p]? ≠ some quote := by
  intro hp
  have heq := h.opens.eq_of_quote hp
  have hlt := h.before
  omega

theorem Enclosed.unique {i' j' : ℕ} (h : Enclosed text i j p) (h' : Enclosed text i' j' p) :
    i' = i ∧ j' = j := by
  have hsel := (selectComment_off_quote h.off_quote).mpr ⟨i, j, h, rfl⟩
  have hsel' := (selectComment_off_quote h.off_quote).mpr ⟨i', j', h', rfl⟩
  rw [hsel] at hsel'
  have heq := inside_injective (Option.some.inj hsel')
  exact ⟨(congrArg Prod.fst heq).symm, (congrArg Prod.snd heq).symm⟩

/-- From everywhere between plain quotes the loop to the left ends at the same one. -/
theorem Plain.opens (h : Plain text i j) (hi : text[i]? = some quote) (hj : j ≤ text.length) :
    ∀ n, i < n → n ≤ j → Opens text n i := by
  intro n
  induction n using Nat.strong_induction_on with
  | _ n ih =>
    intro hin hnj
    obtain ⟨m, rfl⟩ : ∃ m, n = m + 1 := ⟨n - 1, by omega⟩
    rcases Nat.eq_or_lt_of_le (Nat.le_of_lt_succ hin) with heq | him
    · subst heq
      exact Opens.self hi
    · have hc : text[m]? = some text[m] := List.getElem?_eq_getElem (by omega)
      have hstop := h.passes m him hnj _ hc
      by_cases hback : text[m] = backslash
      · -- the backslash is not right after the quote, so what it takes is between
        rw [hback] at hc
        have hne : m ≠ i + 1 := by
          rintro rfl
          exact h.unescaped hc
        obtain ⟨k, rfl⟩ : ∃ k, m = k + 1 := ⟨m - 1, by omega⟩
        exact (opens_backslash_iff hc).mpr (ih k (by omega) (by omega) (by omega))
      · exact (opens_succ_iff hc hback (ne_quote_of_not_stops hstop)).mpr
          ⟨hstop, ih m (by omega) him (by omega)⟩

theorem Plain.enclosed (h : Plain text i j) (henc : Enclosed text i j p) {q : ℕ} (hiq : i < q)
    (hqj : q < j) : Enclosed text i j q := by
  have hj : j < text.length := (List.getElem?_eq_some_iff.mp henc.closes.closing).1
  refine ⟨hiq, hqj, h.opens henc.opens.opening (Nat.le_of_lt hj) (q + 1) (by omega) (by omega),
    Nat.le_of_lt hqj, henc.closes.closing, ?_⟩
  intro k hqk hkj
  exact h.passes k (by omega) hkj

/-- Two loops that end at the quotes from right after the first one find nothing between
them. -/
theorem plain_of_opens_closes (hopens : Opens text (i + 2) i) (hcloses : Closes text (i + 1) j) :
    Plain text i j := by
  refine ⟨fun k hik hkj => hcloses.passes k hik hkj, fun hback => ?_⟩
  have hlt := ((opens_backslash_iff hback).mp hopens).lt
  exact Nat.lt_irrefl i hlt

end Enclosed

section Words

variable {isJavaIdentifierPart : JChar → Bool} {text : Text} {a b i j : ℕ}

/-- A word that fills the space between two positions is plain. -/
theorem MaximalRun.plain (hwords : WordsPass isJavaIdentifierPart)
    (h : MaximalRun isJavaIdentifierPart text (i + 1) j) (hij : i + 1 < j) : Plain text i j := by
  refine ⟨fun k hik hkj c hc => (hwords c (h.parts k hik hkj c hc)).1, fun hback => ?_⟩
  exact (hwords _ (h.parts (i + 1) (Nat.le_refl _) hij _ hback)).2 rfl

/-- The loop to the left passes over a word, from everywhere in it. -/
theorem MaximalRun.opens_iff (hwords : WordsPass isJavaIdentifierPart)
    (h : MaximalRun isJavaIdentifierPart text a b) :
    ∀ n, a ≤ n → n ≤ b → (Opens text n i ↔ Opens text a i) := by
  intro n han
  induction n, han using Nat.le_induction with
  | base => exact fun _ => Iff.rfl
  | succ n han ih =>
    intro hnb
    have hlen := h.inText
    have hc : text[n]? = some text[n] := List.getElem?_eq_getElem (by omega)
    obtain ⟨hstop, hback⟩ := hwords _ (h.parts n han hnb _ hc)
    rw [opens_succ_iff hc hback (ne_quote_of_not_stops hstop), ← ih (by omega)]
    exact and_iff_right hstop

/-- Quotes that enclose one character of a word enclose all of them. -/
theorem MaximalRun.enclosed (hwords : WordsPass isJavaIdentifierPart)
    (h : MaximalRun isJavaIdentifierPart text a b) {p q : ℕ} (hap : a ≤ p) (hpb : p < b)
    (haq : a ≤ q) (hqb : q < b) (henc : Enclosed text i j q) : Enclosed text i j p := by
  have hpass : ∀ k, a ≤ k → k < b → ∀ c, text[k]? = some c → stopsComment c = false :=
    fun k hak hkb c hc => (hwords c (h.parts k hak hkb c hc)).1
  have houtside : ∀ k, text[k]? = some quote → ¬ (a ≤ k ∧ k < b) := by
    intro k hk hin
    exact ne_quote_of_not_stops (hpass k hin.1 hin.2 _ hk) rfl
  have hi := houtside i henc.opens.opening
  have hj := houtside j henc.closes.closing
  have hbefore := henc.before
  have hafter := henc.after
  refine ⟨by omega, by omega, ?_, by omega, henc.closes.closing, ?_⟩
  · rw [h.opens_iff hwords (p + 1) (by omega) (by omega),
      ← h.opens_iff hwords (q + 1) (by omega) (by omega)]
    exact henc.opens
  · intro k hpk hkj c hc
    rcases Nat.lt_or_ge k b with hkb | hbk
    · exact hpass k (by omega) hkb c hc
    · exact henc.closes.passes k (by omega) hkj c hc

end Words

section Everywhere

variable {isJavaIdentifierPart : JChar → Bool} {text : Text} {i j p : ℕ}

/-- A range with no character in it is selected from everywhere in it. -/
theorem selectedFromEverywhere_of_neg (z : ℤ) :
    SelectedFromEverywhere isJavaIdentifierPart text ⟨z, -1⟩ := by
  intro q hoffset hlength
  dsimp only at hoffset hlength
  omega

/-- A caret right after the opening quote finds the whole string only if it is plain. -/
theorem plain_of_doubleClicked (hwords : WordsPass isJavaIdentifierPart) (hij : i + 1 < j)
    (h : doubleClicked isJavaIdentifierPart text ((i + 1 : ℕ) : ℤ) = some (inside (i, j))) :
    Plain text i j := by
  cases hsel : selectComment text (i + 1) with
  | some r =>
    rw [doubleClicked_of_comment hsel] at h
    obtain rfl := Option.some.inj h
    obtain ⟨i', j', hopens, hcloses, hr⟩ := selectComment_eq_some_iff.mp hsel
    cases inside_injective hr
    exact plain_of_opens_closes hopens hcloses
  | none =>
    rw [doubleClicked_of_none hsel] at h
    cases hc : text[i + 1]? with
    | none =>
      rw [selectWord_past_end hc] at h
      cases h
    | some c =>
      cases hpart : isJavaIdentifierPart c with
      | false =>
        rw [selectWord_of_not_part hc hpart] at h
        have hlength := congrArg SelectedRange.length (Option.some.inj h)
        simp only [inside] at hlength
        omega
      | true =>
        -- the word has the ends of the string
        obtain ⟨a, b, hrun, -, -, hword⟩ := selectWord_run hc hpart
        rw [hword] at h
        have heq := Option.some.inj h
        simp only [inside, SelectedRange.mk.injEq] at heq
        obtain rfl : a = i + 1 := by omega
        obtain rfl : b = j := by omega
        exact hrun.plain hwords hij

/-- **A double click anywhere in a selection selects it again** exactly when no quotes
enclose the caret, or what stands between them is plain.  A selected word always is
selected again. -/
theorem doubleClicked_everywhere_iff (isJavaIdentifierPart : JChar → Bool)
    (hwords : WordsPass isJavaIdentifierPart) (text : Text) (p : ℕ) (r : SelectedRange)
    (h : doubleClicked isJavaIdentifierPart text p = some r) :
    SelectedFromEverywhere isJavaIdentifierPart text r ↔
      ∀ i j, Enclosed text i j p → Plain text i j := by
  by_cases hex : ∃ i j, Enclosed text i j p
  · obtain ⟨i, j, henc⟩ := hex
    have hbefore := henc.before
    have hafter := henc.after
    rw [doubleClicked_of_comment ((selectComment_off_quote henc.off_quote).mpr ⟨i, j, henc, rfl⟩)]
      at h
    obtain rfl := Option.some.inj h
    constructor
    · intro heverywhere i' j' henc'
      obtain ⟨rfl, rfl⟩ := henc.unique henc'
      refine plain_of_doubleClicked hwords (by omega) (heverywhere (i' + 1) ?_ ?_)
      · simp only [inside]
        omega
      · simp only [inside]
        omega
    · intro hplain q hoffset hlength
      simp only [inside] at hoffset hlength
      have hencq := (hplain i j henc).enclosed henc (q := q) (by omega) (by omega)
      exact doubleClicked_of_comment
        ((selectComment_off_quote hencq.off_quote).mpr ⟨i, j, hencq, rfl⟩)
  · refine iff_of_true ?_ fun i j henc => absurd ⟨i, j, henc⟩ hex
    cases hc : text[p]? with
    | none =>
      rw [doubleClicked_past_end hc] at h
      cases h
    | some c =>
      by_cases hquote : c = quote
      · rw [hquote] at hc
        rw [doubleClicked_on_quote hc] at h
        obtain rfl := Option.some.inj h
        have hneg : inside (p, p) = ⟨(p : ℤ) + 1, -1⟩ := by simp [inside]
        rw [hneg]
        exact selectedFromEverywhere_of_neg _
      · rw [doubleClicked_of_not_enclosed (ne_quote_of_some hc hquote) hex] at h
        cases hpart : isJavaIdentifierPart c with
        | false =>
          rw [selectWord_of_not_part hc hpart] at h
          obtain rfl := Option.some.inj h
          exact selectedFromEverywhere_of_neg _
        | true =>
          obtain ⟨a, b, hrun, hap, hpb, hword⟩ := selectWord_run hc hpart
          rw [hword] at h
          obtain rfl := Option.some.inj h
          intro q hoffset hlength
          dsimp only at hoffset hlength
          have haq : a ≤ q := by omega
          have hqb : q < b := by omega
          -- a caret in the word is enclosed by quotes only if `p` is
          have hnot : ¬ ∃ i j, Enclosed text i j q := by
            rintro ⟨i, j, henc⟩
            exact hex ⟨i, j, hrun.enclosed hwords hap hpb haq hqb henc⟩
          have hoff : text[q]? ≠ some quote := by
            intro hq
            exact ne_quote_of_not_stops (hwords _ (hrun.parts q haq hqb _ hq)).1 rfl
          rw [doubleClicked_of_not_enclosed hoff hnot, hrun.selectWord_eq haq hqb]

theorem wordsPass_isAsciiIdentifierPart : WordsPass isAsciiIdentifierPart := by
  have hline : isAsciiIdentifierPart LINE_SEPARATOR = false := by decide
  have hquote : isAsciiIdentifierPart quote = false := by decide
  have hback : isAsciiIdentifierPart backslash = false := by decide
  intro c hc
  have hne : ∀ d, isAsciiIdentifierPart d = false → c ≠ d := by
    rintro d hd rfl
    rw [hc] at hd
    cases hd
  refine ⟨?_, hne _ hback⟩
  simp [stopsComment, hne _ hline, hne _ hquote]

/-- The literal `"a b"` is selected from everywhere in it, and `"\\c"` is not: the loop to
the left from its first backslash takes the quote along. -/
theorem doubleClicked_everywhere_literals :
    SelectedFromEverywhere isAsciiIdentifierPart [quote, 97, 32, 98, quote] ⟨1, 3⟩ ∧
      ¬ SelectedFromEverywhere isAsciiIdentifierPart [quote, backslash, backslash, 99, quote]
        ⟨1, 3⟩ := by
  constructor
  · refine (doubleClicked_everywhere_iff isAsciiIdentifierPart wordsPass_isAsciiIdentifierPart
      _ 2 _ (by decide)).mpr fun i j henc => ?_
    have hsel := (selectComment_off_quote henc.off_quote).mpr ⟨i, j, henc, rfl⟩
    have hquotes : selectComment [quote, 97, 32, 98, quote] 2 = some (inside (0, 4)) := by decide
    rw [hquotes] at hsel
    cases inside_injective (Option.some.inj hsel)
    refine ⟨fun k hik hkj c hc => ?_, by decide⟩
    obtain rfl | rfl | rfl : k = 1 ∨ k = 2 ∨ k = 3 := by omega
    all_goals
      cases hc
      decide
  · intro heverywhere
    have hquotes : selectComment [quote, backslash, backslash, 99, quote] 3
        = some (inside (0, 4)) := by decide
    obtain ⟨i, j, henc, hins⟩ := (selectComment_off_quote (by decide)).mp hquotes
    have hplain := (doubleClicked_everywhere_iff isAsciiIdentifierPart
      wordsPass_isAsciiIdentifierPart _ 3 _ (by decide)).mp heverywhere i j henc
    cases inside_injective hins
    exact hplain.unescaped (by decide)

end Everywhere

end XMLDoubleClickStrategy

end SilverTree
