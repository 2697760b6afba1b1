import SilverTree.Leaves
import SilverTree.Scan

/-!
# The double click strategy

A double click in the editor selects the inside of a string, or the word under the
caret.  `XMLDoubleClickStrategy` looks for the quotes around the caret with two loops,
one to the left and one to the right, and for the ends of a word with two more.

`Character.LINE_SEPARATOR`, where the loops for the quotes also stop, is not a
character but the number of a Unicode category, 13, and so the loops stop at a
carriage return.

## Main definitions

* `selectComment`, `selectWord`, `doubleClicked` — the strategy, as the range it hands
  to `setSelectedRange`, if any.
* `Enclosed` — a pair of quotes that the loops reach from the caret.

## Main results

* `selectComment_eq_some_iff` — what `selectComment` selects.
* `doubleClicked_inBounds_iff` — **when the selection is a range of the document.**
* `selectWord_maximalRun` — **a word is a maximal run of identifier characters.**
-/

namespace SilverTree

namespace XMLDoubleClickStrategy

/-! ### The strategy -/

/-- The character `"`. -/
def quote : JChar := 34

/-- The character `\`. -/
def backslash : JChar := 92

/-- The character the variable `c` starts from. -/
def space : JChar := 32

/-- `Character.LINE_SEPARATOR`. -/
def LINE_SEPARATOR : JChar := 13

/-- A range handed to `setSelectedRange`. -/
structure SelectedRange where
  offset : ℤ
  length : ℤ
  deriving DecidableEq, Repr

/-- Where the loops for the quotes stop. -/
def stopsComment (c : JChar) : Bool := c == LINE_SEPARATOR || c == quote

/-- The loop of `selectComment` to the left, from position `n - 1`: the character it has
read last and the position it ends at.  After a backslash it skips the character before
it.  `none` is a `BadLocationException`. -/
def commentStart (text : Text) : ℕ → JChar → Option (JChar × ℤ)
  | 0, c => some (c, -1)
  | pos + 1, _ =>
    match text[pos]? with
    | none => none
    | some c =>
      if c = backslash then
        -- `pos -= 2`, which can go past the start by two
        match pos with
        | 0 => some (c, -2)
        | pos + 1 => commentStart text pos c
      else if stopsComment c then some (c, pos)
      else commentStart text pos c

/-- `selectComment`: the range it selects, or `none` when it returns `false`. -/
def selectComment (text : Text) (caretPos : ℕ) : Option SelectedRange :=
  match commentStart text (caretPos + 1) space with
  | none => none
  | some (c, startPos) =>
    if c ≠ quote then none
    else
      -- the loop to the right knows no escapes
      let (c, endPos) := Scan.forward stopsComment (text.drop caretPos) space caretPos
      if c ≠ quote then none
      else
        let offset := startPos + 1
        some ⟨offset, endPos - offset⟩

/-- `selectRange`. -/
def selectRange (startPos stopPos : ℤ) : SelectedRange :=
  let offset := startPos + 1
  ⟨offset, stopPos - offset⟩

/-- `selectWord`, for the identifier characters `isJavaIdentifierPart`. -/
def selectWord (isJavaIdentifierPart : JChar → Bool) (text : Text) (caretPos : ℕ) :
    Option SelectedRange :=
  match Scan.backward (fun c => !isJavaIdentifierPart c) text (caretPos + 1) with
  | none => none
  | some startPos =>
    -- this `c` has no first value and is not looked at after the loops
    let endPos :=
      (Scan.forward (fun c => !isJavaIdentifierPart c) (text.drop caretPos) space caretPos).2
    some (selectRange startPos endPos)

/-- `doubleClicked`, with the caret at `pos`: the range it selects, if any. -/
def doubleClicked (isJavaIdentifierPart : JChar → Bool) (text : Text) (pos : ℤ) :
    Option SelectedRange :=
  if pos < 0 then none
  else
    match selectComment text pos.toNat with
    | some range => some range
    | none => selectWord isJavaIdentifierPart text pos.toNat

/-! ### The quotes around the caret -/

/-- The loop to the left passes over these characters, given from right to left: none of
them stops it, and each backslash takes with it the character on its left. -/
def passedOver : Text → Bool
  | [] => true
  | c :: rest =>
    if c = backslash then
      match rest with
      | [] => false
      | _ :: rest => passedOver rest
    else !stopsComment c && passedOver rest

@[simp] theorem passedOver_nil : passedOver [] = true := rfl

theorem passedOver_cons {c : JChar} (hback : c ≠ backslash) (rest : Text) :
    passedOver (c :: rest) = (!stopsComment c && passedOver rest) := by
  rw [passedOver.eq_def]
  simp [hback]

@[simp] theorem passedOver_backslash : passedOver [backslash] = false := rfl

@[simp] theorem passedOver_backslash_cons (d : JChar) (rest : Text) :
    passedOver (backslash :: d :: rest) = passedOver rest := by
  rw [passedOver.eq_def]
  simp

/-- The quote at `i` is where the loop to the left ends, from position `n - 1`. -/
structure Opens (text : Text) (n i : ℕ) : Prop where
  lt : i < n
  opening : text[i]? = some quote
  passes : passedOver (slice text (i + 1) (n - (i + 1))).reverse = true

/-- The quote at `j` is where the loop to the right ends, from position `p`. -/
structure Closes (text : Text) (p j : ℕ) : Prop where
  le : p ≤ j
  closing : text[j]? = some quote
  passes : ∀ q, p ≤ q → q < j → ∀ c, text[q]? = some c → stopsComment c = false

/-- The quotes at `i` and `j` are where the loops end, on either side of `p`. -/
structure Enclosed (text : Text) (i j p : ℕ) : Prop where
  before : i < p
  after : p < j
  opens : Opens text (p + 1) i
  closes : Closes text p j

theorem quote_ne_backslash : quote ≠ backslash := by decide

theorem space_ne_quote : space ≠ quote := by decide

theorem stopsComment_quote : stopsComment quote = true := by decide

/-- The characters from `i` to `n`, read to the left, start with the one at `n`. -/
theorem reverse_slice_succ {text : Text} {i n : ℕ} {c : JChar} (hi : i ≤ n)
    (hc : text[n]? = some c) :
    (slice text i (n + 1 - i)).reverse = c :: (slice text i (n - i)).reverse := by
  have hlen : n + 1 - i = (n - i) + 1 := by omega
  have hget : (text.drop i)[n - i]? = some c := by
    rw [List.getElem?_drop, Nat.add_sub_cancel' hi, hc]
  rw [slice, slice, hlen, List.take_add_one, hget]
  simp

theorem Opens.self {text : Text} {n : ℕ} (hc : text[n]? = some quote) : Opens text (n + 1) n := by
  refine ⟨by omega, hc, ?_⟩
  simp [slice]

/-- A quote the loop reads ends it. -/
theorem Opens.eq_of_quote {text : Text} {n i : ℕ} (h : Opens text (n + 1) i)
    (hc : text[n]? = some quote) : i = n := by
  have hlt := h.lt
  rcases Nat.eq_or_lt_of_le (Nat.le_of_lt_succ hlt) with heq | hin
  · exact heq
  · have hpass := h.passes
    rw [reverse_slice_succ (by omega) hc, passedOver_cons quote_ne_backslash] at hpass
    simp [stopsComment_quote] at hpass

/-- The characters that do not stop the loop can be left out. -/
theorem opens_succ_iff {text : Text} {n i : ℕ} {c : JChar} (hc : text[n]? = some c)
    (hback : c ≠ backslash) (hquote : c ≠ quote) :
    Opens text (n + 1) i ↔ stopsComment c = false ∧ Opens text n i := by
  have hne : Opens text (n + 1) i → i < n := by
    intro h
    have hlt := h.lt
    have hn : i ≠ n := by
      intro heq
      have hopen := h.opening
      rw [heq, hc] at hopen
      exact hquote (Option.some.inj hopen)
    omega
  constructor
  · intro h
    have hin := hne h
    have hpass := h.passes
    rw [reverse_slice_succ (by omega) hc, passedOver_cons hback] at hpass
    simp only [Bool.and_eq_true, Bool.not_eq_true'] at hpass
    exact ⟨hpass.1, hin, h.opening, hpass.2⟩
  · intro h
    obtain ⟨hstop, hin, hopen, hpass⟩ := h
    refine ⟨by omega, hopen, ?_⟩
    rw [reverse_slice_succ (by omega) hc, passedOver_cons hback]
    simp [hstop, hpass]

/-- A backslash takes the character on its left with it. -/
theorem opens_backslash_iff {text : Text} {n i : ℕ} (hc : text[n + 1]? = some backslash) :
    Opens text (n + 2) i ↔ Opens text n i := by
  have hlen : n + 1 < text.length := (List.getElem?_eq_some_iff.mp hc).1
  have hd : text[n]? = some text[n] := List.getElem?_eq_getElem (by omega)
  constructor
  · intro h
    have hlt := h.lt
    have hopen := h.opening
    have hn : i ≠ n + 1 := by
      intro heq
      rw [heq, hc] at hopen
      exact quote_ne_backslash (Option.some.inj hopen).symm
    have hpass := h.passes
    rw [reverse_slice_succ (by omega) hc] at hpass
    rcases Nat.eq_or_lt_of_le (show i ≤ n by omega) with heq | hin
    · -- the backslash would take the opening quote itself
      subst heq
      simp [slice] at hpass
    · rw [reverse_slice_succ (by omega) hd, passedOver_backslash_cons] at hpass
      exact ⟨hin, hopen, hpass⟩
  · intro h
    have hlt := h.lt
    refine ⟨by omega, h.opening, ?_⟩
    rw [reverse_slice_succ (by omega) hc, reverse_slice_succ (by omega) hd,
      passedOver_backslash_cons]
    exact h.passes

/-- A backslash at the start of the text leaves no quote on its left. -/
theorem not_opens_one {text : Text} {i : ℕ} {c : JChar} (hc : text[0]? = some c)
    (hquote : c ≠ quote) : ¬ Opens text 1 i := by
  intro h
  have hlt := h.lt
  have hopen := h.opening
  obtain rfl : i = 0 := by omega
  rw [hc] at hopen
  exact hquote (Option.some.inj hopen)

theorem not_opens_zero {text : Text} {i : ℕ} : ¬ Opens text 0 i := fun h => by
  have hlt := h.lt
  omega

theorem commentStart_backslash {text : Text} {n : ℕ} (c : JChar)
    (hd : text[n + 1]? = some backslash) :
    commentStart text (n + 2) c = commentStart text n backslash := by
  rw [commentStart.eq_def]
  simp [hd]

theorem commentStart_succ {text : Text} {n : ℕ} (c : JChar) {d : JChar} (hd : text[n]? = some d)
    (hback : d ≠ backslash) :
    commentStart text (n + 1) c =
      if stopsComment d then some (d, (n : ℤ)) else commentStart text n d := by
  rw [commentStart.eq_def]
  simp [hd, hback]

/-- **The loop to the left** ends at the opening quote, if there is one, and there is at
most one; otherwise the last character it has read is not a quote. -/
theorem commentStart_spec (text : Text) : ∀ n c, n ≤ text.length → c ≠ quote →
    (∃ i : ℕ, commentStart text n c = some (quote, (i : ℤ)) ∧ Opens text n i ∧
        ∀ i', Opens text n i' → i' = i) ∨
      (∃ d z, commentStart text n c = some (d, z) ∧ d ≠ quote ∧ ∀ i, ¬ Opens text n i) := by
  intro n
  -- the loop goes back by one or by two
  induction n using Nat.strong_induction_on with
  | _ n ih =>
    intro c hn hquote
    cases n with
    | zero => exact Or.inr ⟨c, -1, by rw [commentStart], hquote, fun i => not_opens_zero⟩
    | succ n =>
      have hd : text[n]? = some text[n] := List.getElem?_eq_getElem (by omega)
      by_cases hback : text[n] = backslash
      · rw [hback] at hd
        cases n with
        | zero =>
          refine Or.inr ⟨backslash, -2, by simp [commentStart, hd], ?_, fun i => ?_⟩
          · exact quote_ne_backslash.symm
          · exact not_opens_one hd quote_ne_backslash.symm
        | succ n =>
          rw [commentStart_backslash c hd]
          rcases ih n (by omega) backslash (by omega) quote_ne_backslash.symm
            with ⟨i, hrun, hopens, huniq⟩ | ⟨d, z, hrun, hne, hnone⟩
          · refine Or.inl ⟨i, hrun, (opens_backslash_iff hd).mpr hopens, fun i' h => ?_⟩
            exact huniq i' ((opens_backslash_iff hd).mp h)
          · refine Or.inr ⟨d, z, hrun, hne, fun i h => ?_⟩
            exact hnone i ((opens_backslash_iff hd).mp h)
      · rw [commentStart_succ c hd hback]
        by_cases hq : text[n] = quote
        · rw [hq] at hd ⊢
          exact Or.inl ⟨n, by simp [stopsComment_quote], Opens.self hd,
            fun i' h => h.eq_of_quote hd⟩
        · cases hstop : stopsComment text[n] with
          | true =>
            refine Or.inr ⟨text[n], n, by simp, hq, fun i h => ?_⟩
            rw [opens_succ_iff hd hback hq, hstop] at h
            exact absurd h.1 (by simp)
          | false =>
            rcases ih n (by omega) text[n] (by omega) hq
              with ⟨i, hrun, hopens, huniq⟩ | ⟨d, z, hrun, hne, hnone⟩
            · refine Or.inl ⟨i, by simpa using hrun,
                (opens_succ_iff hd hback hq).mpr ⟨hstop, hopens⟩, fun i' h => ?_⟩
              exact huniq i' ((opens_succ_iff hd hback hq).mp h).2
            · refine Or.inr ⟨d, z, by simpa using hrun, hne, fun i h => ?_⟩
              exact hnone i ((opens_succ_iff hd hback hq).mp h).2

/-- A closing quote is where the loop to the right ends. -/
theorem Closes.endsAt {text : Text} {p j : ℕ} (h : Closes text p j) :
    Scan.EndsAt stopsComment text p j :=
  ⟨h.le, Nat.le_of_lt (List.getElem?_eq_some_iff.mp h.closing).1, h.passes,
    fun _ => ⟨quote, h.closing, stopsComment_quote⟩⟩

theorem Closes.unique {text : Text} {p j j' : ℕ} (h : Closes text p j) (h' : Closes text p j') :
    j = j' :=
  h.endsAt.unique h'.endsAt

/-- **The loop to the right** ends at the closing quote, if there is one; otherwise the
last character it has read is not a quote. -/
theorem commentEnd_spec (text : Text) {p : ℕ} (hp : p ≤ text.length) :
    (∃ j : ℕ, Scan.forward stopsComment (text.drop p) space p = (quote, j) ∧ Closes text p j) ∨
      (∃ d z, Scan.forward stopsComment (text.drop p) space p = (d, z) ∧ d ≠ quote ∧
        ∀ j, ¬ Closes text p j) := by
  obtain ⟨a, j, hrun, hends, hget, hlast⟩ :=
    Scan.forward_spec stopsComment (text.drop p) p space rfl hp
  rcases Nat.eq_or_lt_of_le hends.inList with heq | hlt
  · -- at the end of the text nothing has stopped the loop
    refine Or.inr ⟨a, j, hrun, ?_, fun j' h => ?_⟩
    · intro hq
      rcases hlast heq with rfl | hpass
      · exact space_ne_quote hq
      · rw [hq, stopsComment_quote] at hpass
        cases hpass
    · have hj' : j' < text.length := (List.getElem?_eq_some_iff.mp h.closing).1
      have huniq := hends.unique h.endsAt
      omega
  · by_cases hq : a = quote
    · subst hq
      exact Or.inl ⟨j, hrun, hends.le, hget hlt, hends.passes⟩
    · refine Or.inr ⟨a, j, hrun, hq, fun j' h => ?_⟩
      have hclosing := h.closing
      rw [← hends.unique h.endsAt, hget hlt] at hclosing
      exact hq (Option.some.inj hclosing)

/-- The range between two quotes. -/
def inside (quotes : ℕ × ℕ) : SelectedRange :=
  ⟨(quotes.1 : ℤ) + 1, quotes.2 - ((quotes.1 : ℤ) + 1)⟩

theorem inside_injective {q q' : ℕ × ℕ} (h : inside q = inside q') : q = q' := by
  simp only [inside, SelectedRange.mk.injEq] at h
  obtain ⟨hfst, hsnd⟩ := h
  ext <;> omega

/-- **What `selectComment` selects**: the range between the quotes its loops end at. -/
theorem selectComment_eq_some_iff {text : Text} {p : ℕ} {r : SelectedRange} :
    selectComment text p = some r ↔
      ∃ i j, Opens text (p + 1) i ∧ Closes text p j ∧ r = inside (i, j) := by
  by_cases hp : p < text.length
  · rcases commentStart_spec text (p + 1) space hp space_ne_quote
      with ⟨i, hrun, hopens, huniq⟩ | ⟨d, z, hrun, hne, hnone⟩
    · rcases commentEnd_spec text (Nat.le_of_lt hp)
        with ⟨j, hrun', hcloses⟩ | ⟨d, z, hrun', hne, hnone⟩
      · have hsel : selectComment text p = some (inside (i, j)) := by
          simp [selectComment, hrun, hrun', inside]
        rw [hsel]
        constructor
        · intro h
          exact ⟨i, j, hopens, hcloses, (Option.some.inj h).symm⟩
        · intro h
          obtain ⟨i', j', hopens', hcloses', rfl⟩ := h
          rw [huniq i' hopens', hcloses.unique hcloses']
      · have hsel : selectComment text p = none := by
          simp [selectComment, hrun, hrun', hne]
        rw [hsel]
        refine ⟨fun h => by simp at h, fun h => ?_⟩
        obtain ⟨i', j', -, hcloses', -⟩ := h
        exact absurd hcloses' (hnone j')
    · have hsel : selectComment text p = none := by
        simp [selectComment, hrun, hne]
      rw [hsel]
      refine ⟨fun h => by simp at h, fun h => ?_⟩
      obtain ⟨i', j', hopens', -, -⟩ := h
      exact absurd hopens' (hnone i')
  · -- past the end of the text the first read fails, and no quote follows
    have hnone : text[p]? = none := List.getElem?_eq_none (by omega)
    have hsel : selectComment text p = none := by
      simp [selectComment, commentStart, hnone]
    rw [hsel]
    refine ⟨fun h => by simp at h, fun h => ?_⟩
    obtain ⟨i', j', -, hcloses', -⟩ := h
    have hlen : j' < text.length := (List.getElem?_eq_some_iff.mp hcloses'.closing).1
    have hle := hcloses'.le
    omega

/-- On a quote both loops end at once, and the range has the length `-1`. -/
theorem selectComment_on_quote {text : Text} {p : ℕ} (hp : text[p]? = some quote) :
    selectComment text p = some (inside (p, p)) := by
  refine selectComment_eq_some_iff.mpr ⟨p, p, Opens.self hp, ⟨Nat.le_refl p, hp, ?_⟩, rfl⟩
  intro q hpq hqp
  omega

/-- Off a quote, the quotes the loops end at are on either side of the caret. -/
theorem Enclosed.of_opens_closes {text : Text} {p i j : ℕ} (hp : text[p]? ≠ some quote)
    (hopens : Opens text (p + 1) i) (hcloses : Closes text p j) : Enclosed text i j p := by
  have hi := hopens.lt
  have hj := hcloses.le
  have hip : i ≠ p := fun heq => hp (heq ▸ hopens.opening)
  have hjp : j ≠ p := fun heq => hp (heq ▸ hcloses.closing)
  exact ⟨by omega, by omega, hopens, hcloses⟩

/-- Anywhere else the selected quotes enclose the caret. -/
theorem selectComment_off_quote {text : Text} {p : ℕ} {r : SelectedRange}
    (hp : text[p]? ≠ some quote) :
    selectComment text p = some r ↔ ∃ i j, Enclosed text i j p ∧ r = inside (i, j) := by
  rw [selectComment_eq_some_iff]
  constructor
  · intro h
    obtain ⟨i, j, hopens, hcloses, hr⟩ := h
    exact ⟨i, j, .of_opens_closes hp hopens hcloses, hr⟩
  · intro h
    obtain ⟨i, j, henc, hr⟩ := h
    exact ⟨i, j, henc.opens, henc.closes, hr⟩

/-! ### Words -/

section Words

variable (isJavaIdentifierPart : JChar → Bool) (text : Text)

/-- The positions from `i` up to `j` are a maximal run of identifier characters. -/
structure MaximalRun (i j : ℕ) : Prop where
  inText : j ≤ text.length
  parts : ∀ q, i ≤ q → q < j → ∀ c, text[q]? = some c → isJavaIdentifierPart c = true
  before : 0 < i → ∃ c, text[i - 1]? = some c ∧ isJavaIdentifierPart c = false
  after : j < text.length → ∃ c, text[j]? = some c ∧ isJavaIdentifierPart c = false

variable {isJavaIdentifierPart text}

variable (isJavaIdentifierPart) in
/-- The two loops of `selectWord`, in the document. -/
theorem selectWord_spec {p : ℕ} (hp : p < text.length) :
    ∃ i j : ℕ, selectWord isJavaIdentifierPart text p = some ⟨i, (j : ℤ) - i⟩ ∧
      Scan.StartsAt (fun c => !isJavaIdentifierPart c) text (p + 1) i ∧
      Scan.EndsAt (fun c => !isJavaIdentifierPart c) text p j := by
  obtain ⟨i, hback, hstarts⟩ :=
    Scan.backward_spec (fun c => !isJavaIdentifierPart c) (p + 1) hp
  obtain ⟨a, j, hforward, hends, -⟩ :=
    Scan.forward_spec (fun c => !isJavaIdentifierPart c) (text.drop p) p space rfl
      (Nat.le_of_lt hp)
  refine ⟨i, j, ?_, hstarts, hends⟩
  simp [selectWord, hback, hforward, selectRange]

/-- A run around `p` is what the loops pass from `p`. -/
theorem maximalRun_iff {i j p : ℕ} (hip : i ≤ p) (hpj : p < j) :
    MaximalRun isJavaIdentifierPart text i j ↔
      Scan.StartsAt (fun c => !isJavaIdentifierPart c) text (p + 1) i ∧
        Scan.EndsAt (fun c => !isJavaIdentifierPart c) text p j := by
  constructor
  · intro h
    have hpass : ∀ q, i ≤ q → q < j → ∀ c, text[q]? = some c →
        (!isJavaIdentifierPart c) = false := by
      intro q hiq hqj c hc
      simp [h.parts q hiq hqj c hc]
    refine ⟨⟨by omega, fun q hiq hqp => hpass q hiq (by omega), ?_⟩,
      ⟨by omega, h.inText, fun q hpq hqj => hpass q (by omega) hqj, ?_⟩⟩
    · simpa using h.before
    · simpa using h.after
  · intro h
    obtain ⟨hstarts, hends⟩ := h
    refine ⟨hends.inList, fun q hiq hqj c hc => ?_, ?_, ?_⟩
    · rcases Nat.lt_or_ge q (p + 1) with hlt | hge
      · simpa using hstarts.passes q hiq hlt c hc
      · simpa using hends.passes q (by omega) hqj c hc
    · simpa using hstarts.stops
    · simpa using hends.stops

/-- Every caret in a run selects the run. -/
theorem MaximalRun.selectWord_eq {i j q : ℕ} (h : MaximalRun isJavaIdentifierPart text i j)
    (hiq : i ≤ q) (hqj : q < j) :
    selectWord isJavaIdentifierPart text q = some ⟨i, (j : ℤ) - i⟩ := by
  have hlen := h.inText
  obtain ⟨hstarts, hends⟩ := (maximalRun_iff hiq hqj).mp h
  obtain ⟨i', j', hsel, hstarts', hends'⟩ :=
    selectWord_spec isJavaIdentifierPart (show q < text.length by omega)
  rw [hsel, hstarts'.unique hstarts, hends'.unique hends]

/-- The loops go past the caret when it is on an identifier character. -/
theorem selectWord_run {p : ℕ} {c : JChar} (hp : text[p]? = some c)
    (hc : isJavaIdentifierPart c = true) :
    ∃ i j : ℕ, MaximalRun isJavaIdentifierPart text i j ∧ i ≤ p ∧ p < j ∧
      selectWord isJavaIdentifierPart text p = some ⟨i, (j : ℤ) - i⟩ := by
  have hlen : p < text.length := (List.getElem?_eq_some_iff.mp hp).1
  obtain ⟨i, j, hsel, hstarts, hends⟩ := selectWord_spec isJavaIdentifierPart hlen
  have hip : i ≤ p := by
    by_contra hlt
    have hle := hstarts.le
    obtain ⟨d, hd, hstop⟩ := hstarts.stops (by omega)
    rw [show i - 1 = p by omega, hp] at hd
    cases hd
    simp [hc] at hstop
  have hpj : p < j := by
    by_contra hge
    have hle := hends.le
    obtain ⟨d, hd, hstop⟩ := hends.stops (by omega)
    rw [show j = p by omega, hp] at hd
    cases hd
    simp [hc] at hstop
  exact ⟨i, j, (maximalRun_iff hip hpj).mpr ⟨hstarts, hends⟩, hip, hpj, hsel⟩

/-- On any other character of the document both loops end at once. -/
theorem selectWord_of_not_part {p : ℕ} {c : JChar} (hp : text[p]? = some c)
    (hc : isJavaIdentifierPart c = false) :
    selectWord isJavaIdentifierPart text p = some ⟨(p : ℤ) + 1, -1⟩ := by
  have hlen : p < text.length := (List.getElem?_eq_some_iff.mp hp).1
  obtain ⟨i, j, hsel, hstarts, hends⟩ := selectWord_spec isJavaIdentifierPart hlen
  have hi : i = p + 1 := by
    refine hstarts.unique ⟨Nat.le_refl _, ?_, fun _ => ⟨c, hp, by simp [hc]⟩⟩
    intro q hpq hqp
    omega
  have hj : j = p := by
    refine hends.unique ⟨Nat.le_refl _, Nat.le_of_lt hlen, ?_, fun _ => ⟨c, hp, by simp [hc]⟩⟩
    intro q hpq hqp
    omega
  rw [hsel, hi, hj]
  simp

theorem selectWord_past_end {p : ℕ} (hp : text[p]? = none) :
    selectWord isJavaIdentifierPart text p = none := by
  simp [selectWord, Scan.backward, hp]

/-- **A double click on a word selects the maximal run of identifier characters around the
caret**, the same one from everywhere in it. -/
theorem selectWord_maximalRun (isJavaIdentifierPart : JChar → Bool) (text : Text) (p : ℕ)
    (c : JChar) (hp : text[p]? = some c) (hc : isJavaIdentifierPart c = true) :
    ∃ i j : ℕ, selectWord isJavaIdentifierPart text p = some ⟨i, (j : ℤ) - i⟩ ∧
      i ≤ p ∧ p < j ∧ MaximalRun isJavaIdentifierPart text i j ∧
      ∀ q, i ≤ q → q < j →
        selectWord isJavaIdentifierPart text q = selectWord isJavaIdentifierPart text p := by
  obtain ⟨i, j, hrun, hip, hpj, hsel⟩ := selectWord_run hp hc
  refine ⟨i, j, hsel, hip, hpj, hrun, fun q hiq hqj => ?_⟩
  rw [hrun.selectWord_eq hiq hqj, hsel]

end Words

/-- The identifier characters among the first 128. -/
def isAsciiIdentifierPart (c : JChar) : Bool :=
  (48 ≤ c && c ≤ 57) || (65 ≤ c && c ≤ 90) || (97 ≤ c && c ≤ 122) || c == 36 || c == 95 ||
    c ≤ 8 || (14 ≤ c && c ≤ 27) || c == 127

/-- The text `<&uart0>;` with the caret on the `r`. -/
theorem selectWord_maximalRun_label :
    ∃ i j : ℕ,
      selectWord isAsciiIdentifierPart [60, 38, 117, 97, 114, 116, 48, 62, 59] 4
        = some ⟨i, (j : ℤ) - i⟩ ∧
      i ≤ 4 ∧ 4 < j ∧ MaximalRun isAsciiIdentifierPart [60, 38, 117, 97, 114, 116, 48, 62, 59] i j ∧
      ∀ q, i ≤ q → q < j →
        selectWord isAsciiIdentifierPart [60, 38, 117, 97, 114, 116, 48, 62, 59] q
          = selectWord isAsciiIdentifierPart [60, 38, 117, 97, 114, 116, 48, 62, 59] 4 :=
  selectWord_maximalRun isAsciiIdentifierPart [60, 38, 117, 97, 114, 116, 48, 62, 59] 4 114
    (by decide) (by decide)

/-! ### The selected range and the document -/

/-- A range of the document. -/
def SelectedRange.InBounds (text : Text) (r : SelectedRange) : Prop :=
  0 ≤ r.offset ∧ 0 ≤ r.length ∧ r.offset + r.length ≤ text.length

instance (text : Text) (r : SelectedRange) : Decidable (r.InBounds text) :=
  inferInstanceAs (Decidable (_ ∧ _ ∧ _))

theorem Enclosed.inBounds {text : Text} {i j p : ℕ} (h : Enclosed text i j p) :
    (inside (i, j)).InBounds text := by
  have hbefore := h.before
  have hafter := h.after
  have hlen : j < text.length := (List.getElem?_eq_some_iff.mp h.closes.closing).1
  refine ⟨?_, ?_, ?_⟩ <;> simp only [inside] <;> omega

theorem MaximalRun.inBounds {isJavaIdentifierPart : JChar → Bool} {text : Text} {i j p : ℕ}
    (h : MaximalRun isJavaIdentifierPart text i j) (hip : i ≤ p) (hpj : p < j) :
    (⟨i, (j : ℤ) - i⟩ : SelectedRange).InBounds text := by
  have hlen := h.inText
  refine ⟨?_, ?_, ?_⟩ <;> dsimp only <;> omega

section DoubleClicked

variable {isJavaIdentifierPart : JChar → Bool} {text : Text}

/-- A double click tries `selectComment` first. -/
theorem doubleClicked_of_comment {p : ℕ} {r : SelectedRange} (h : selectComment text p = some r) :
    doubleClicked isJavaIdentifierPart text p = some r := by
  have hpos : ¬ (p : ℤ) < 0 := by omega
  simp [doubleClicked, hpos, h]

theorem doubleClicked_of_none {p : ℕ} (h : selectComment text p = none) :
    doubleClicked isJavaIdentifierPart text p = selectWord isJavaIdentifierPart text p := by
  have hpos : ¬ (p : ℤ) < 0 := by omega
  simp [doubleClicked, hpos, h]

theorem doubleClicked_on_quote {p : ℕ} (hp : text[p]? = some quote) :
    doubleClicked isJavaIdentifierPart text p = some (inside (p, p)) :=
  doubleClicked_of_comment (selectComment_on_quote hp)

/-- Where no quotes enclose the caret, the double click looks for a word. -/
theorem doubleClicked_of_not_enclosed {p : ℕ} (hp : text[p]? ≠ some quote)
    (hnone : ¬ ∃ i j, Enclosed text i j p) :
    doubleClicked isJavaIdentifierPart text p = selectWord isJavaIdentifierPart text p := by
  refine doubleClicked_of_none ?_
  cases hsel : selectComment text p with
  | none => rfl
  | some r =>
    obtain ⟨i, j, henc, -⟩ := (selectComment_off_quote hp).mp hsel
    exact absurd ⟨i, j, henc⟩ hnone

theorem ne_quote_of_some {p : ℕ} {c : JChar} (hc : text[p]? = some c) (hquote : c ≠ quote) :
    text[p]? ≠ some quote := by
  rw [hc]
  exact fun heq => hquote (Option.some.inj heq)

/-- Past the end of the document neither path selects anything. -/
theorem doubleClicked_past_end {p : ℕ} (hp : text[p]? = none) :
    doubleClicked isJavaIdentifierPart text p = none := by
  have hnone : ¬ ∃ i j, Enclosed text i j p := by
    intro hex
    obtain ⟨i, j, henc⟩ := hex
    have hlen : j < text.length := (List.getElem?_eq_some_iff.mp henc.closes.closing).1
    have hafter := henc.after
    have hge : text.length ≤ p := List.getElem?_eq_none_iff.mp hp
    omega
  rw [doubleClicked_of_not_enclosed (by simp [hp]) hnone, selectWord_past_end hp]

/-- Two loops that both end on the caret give a range of length `-1`. -/
theorem not_inBounds_of_neg {z : ℤ} : ¬ (⟨z, -1⟩ : SelectedRange).InBounds text := by
  intro h
  have hlen : (0 : ℤ) ≤ -1 := h.2.1
  omega

/-- **A double click selects a range of the document** exactly when the caret is not on a
quote, and on an identifier character or enclosed by quotes. -/
theorem doubleClicked_inBounds_iff (isJavaIdentifierPart : JChar → Bool) (text : Text) (p : ℕ) :
    (∀ r, doubleClicked isJavaIdentifierPart text p = some r → r.InBounds text) ↔
      ∀ c, text[p]? = some c →
        c ≠ quote ∧ (isJavaIdentifierPart c = true ∨ ∃ i j, Enclosed text i j p) := by
  constructor
  · intro h c hc
    have hquote : c ≠ quote := by
      intro hq
      rw [hq] at hc
      have hin := h _ (doubleClicked_on_quote hc)
      simp only [SelectedRange.InBounds, inside] at hin
      omega
    refine ⟨hquote, ?_⟩
    by_contra hnot
    obtain ⟨hpart, hnone⟩ := not_or.mp hnot
    have hpart' : isJavaIdentifierPart c = false := by simpa using hpart
    have hrun : doubleClicked isJavaIdentifierPart text p
        = selectWord isJavaIdentifierPart text p :=
      doubleClicked_of_not_enclosed (ne_quote_of_some hc hquote) hnone
    rw [selectWord_of_not_part hc hpart'] at hrun
    exact not_inBounds_of_neg (h _ hrun)
  · intro h r hr
    cases hc : text[p]? with
    | none =>
      rw [doubleClicked_past_end hc] at hr
      cases hr
    | some c =>
      obtain ⟨hquote, hor⟩ := h c hc
      have hp := ne_quote_of_some hc hquote
      by_cases henc : ∃ i j, Enclosed text i j p
      · obtain ⟨i, j, henc⟩ := henc
        have hsel := (selectComment_off_quote hp).mpr ⟨i, j, henc, rfl⟩
        rw [doubleClicked_of_comment hsel] at hr
        cases hr
        exact henc.inBounds
      · rcases hor with hpart | hex
        · obtain ⟨i, j, hrun, hip, hpj, hword⟩ := selectWord_run hc hpart
          rw [doubleClicked_of_not_enclosed hp henc, hword] at hr
          cases hr
          exact hrun.inBounds hip hpj
        · exact absurd hex henc

/-- A double click on the first quote of `"a"` selects a range of length `-1`. -/
theorem doubleClicked_out_of_bounds :
    ¬ ∀ (isJavaIdentifierPart : JChar → Bool) (text : Text) (p : ℕ), p ≤ text.length →
      ∀ r, doubleClicked isJavaIdentifierPart text p = some r → r.InBounds text := by
  intro h
  have hin := h isAsciiIdentifierPart [quote, 97, quote] 0 (by decide) ⟨1, -1⟩ (by decide)
  revert hin
  decide

end DoubleClicked

end XMLDoubleClickStrategy

end SilverTree
