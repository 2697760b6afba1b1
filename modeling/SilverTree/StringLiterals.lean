import SilverTree.DoubleClick
import Mathlib.Algebra.Group.Nat.Even
import Mathlib.Data.List.Pairwise
import Mathlib.Data.Nat.Find

/-!
# The string literals around the caret

A string literal is read from the start of the text, with a backslash escaping the
character after it.  `selectComment` looks for the quotes of a literal from the caret
instead: to the left, where it meets a backslash only after the character behind it, and
to the right, where it knows no escapes.  The two readings agree when the characters
between the caret and the quotes of the literal hide neither quote.

A character that stops the loop to the left is skipped by it exactly when an odd number
of backslashes follow it directly, as far as the caret: the loop takes them in pairs, and
the one left over takes the character with it.

## Main definitions

* `stringLiterals` — the string literals of a text, read from its start.
* `backslashesAfter`, `Unskipped` — how many backslashes follow a character directly, and
  whether they pair up.
* `InSight` — the characters between the caret and two quotes hide neither quote.
* `CarriageReturnBefore`, `CarriageReturnAfter` — the quotes on one side of the caret are
  behind a carriage return.

## Main results

* `opens_iff_nearestQuote` — where the loop to the left ends, in terms of the characters.
* `selectComment_literal_iff` — **when the selection is the inside of a literal.**
-/

namespace SilverTree

namespace XMLDoubleClickStrategy

/-! ### The string literals of a text -/

/-- How many characters stand before the quote that closes a literal.  A backslash escapes
the next character. -/
def closing : Text → Option ℕ
  | [] => none
  | c :: rest =>
    if c = quote then some 0
    else if c = backslash then
      match rest with
      | [] => none
      | _ :: rest => (closing rest).map (· + 2)
    else (closing rest).map (· + 1)

/-- The literals that start after the next `skip` characters, as the positions of their
quotes; the text starts at `pos`. -/
def stringLiteralsFrom : ℕ → ℕ → Text → List (ℕ × ℕ)
  | _, _, [] => []
  | skip + 1, pos, _ :: rest => stringLiteralsFrom skip (pos + 1) rest
  | 0, pos, c :: rest =>
    if c = quote then
      match closing rest with
      | some n => (pos, pos + 1 + n) :: stringLiteralsFrom (n + 1) (pos + 1) rest
      | none => stringLiteralsFrom 0 (pos + 1) rest
    else stringLiteralsFrom 0 (pos + 1) rest

/-- The string literals of a text: the tokens `"([^"\\]|\\.)*"` found from left to right. -/
def stringLiterals (text : Text) : List (ℕ × ℕ) := stringLiteralsFrom 0 0 text

/-- The characters that end a line. -/
def isLineEnd (c : JChar) : Bool := c == 10 || c == 13

/-- The text of a literal, its quotes included. -/
def literalText (text : Text) (literal : ℕ × ℕ) : Text :=
  slice text literal.1 (literal.2 + 1 - literal.1)

/-- Literals follow each other. -/
theorem stringLiteralsFrom_spec : ∀ (text : Text) (skip pos : ℕ),
    (∀ l ∈ stringLiteralsFrom skip pos text, pos + skip ≤ l.1 ∧ l.1 < l.2) ∧
      (stringLiteralsFrom skip pos text).Pairwise (fun l l' => l.2 < l'.1) := by
  intro text
  induction text with
  | nil =>
    intro skip pos
    simp [stringLiteralsFrom]
  | cons c rest ih =>
    intro skip pos
    cases skip with
    | succ skip =>
      obtain ⟨hmem, hpair⟩ := ih skip (pos + 1)
      rw [stringLiteralsFrom]
      refine ⟨fun l hl => ?_, hpair⟩
      obtain ⟨hle, hlt⟩ := hmem l hl
      exact ⟨by omega, hlt⟩
    | zero =>
      obtain ⟨hmem, hpair⟩ := ih 0 (pos + 1)
      have hrest : ∀ l ∈ stringLiteralsFrom 0 (pos + 1) rest, pos + 0 ≤ l.1 ∧ l.1 < l.2 := by
        intro l hl
        obtain ⟨hle, hlt⟩ := hmem l hl
        exact ⟨by omega, hlt⟩
      rw [stringLiteralsFrom]
      split
      · split
        · -- a literal is found, and the search goes on after its closing quote
          rename_i n hn
          obtain ⟨hmem', hpair'⟩ := ih (n + 1) (pos + 1)
          refine ⟨fun l hl => ?_, List.pairwise_cons.mpr ⟨fun l hl => ?_, hpair'⟩⟩
          · rcases List.mem_cons.mp hl with rfl | hl
            · exact ⟨Nat.le_refl pos, by omega⟩
            · obtain ⟨hle, hlt⟩ := hmem' l hl
              exact ⟨by omega, hlt⟩
          · obtain ⟨hle, -⟩ := hmem' l hl
            show pos + 1 + n < l.1
            omega
        · exact ⟨hrest, hpair⟩
      · exact ⟨hrest, hpair⟩

/-- The literals around a position are the same, if one of them is around it strictly. -/
theorem stringLiterals_unique {text : Text} {l l' : ℕ × ℕ} {p : ℕ} (hl : l ∈ stringLiterals text)
    (hl' : l' ∈ stringLiterals text) (hp : l.1 < p ∧ p < l.2) (hp' : l'.1 ≤ p ∧ p ≤ l'.2) :
    l' = l := by
  by_contra hne
  have hpair : (stringLiterals text).Pairwise (fun l l' => l.2 < l'.1) :=
    (stringLiteralsFrom_spec text 0 0).2
  have hsymm : Std.Symm (fun l l' : ℕ × ℕ => l.2 < l'.1 ∨ l'.2 < l.1) := ⟨fun _ _ h => h.symm⟩
  have hpair' : (stringLiterals text).Pairwise (fun l l' => l.2 < l'.1 ∨ l'.2 < l.1) :=
    hpair.imp Or.inl
  have hapart : l.2 < l'.1 ∨ l'.2 < l.1 := hpair'.forall hl hl' (Ne.symm hne)
  omega

theorem stringLiterals_lt {text : Text} {l : ℕ × ℕ} (hl : l ∈ stringLiterals text) : l.1 < l.2 :=
  ((stringLiteralsFrom_spec text 0 0).1 l hl).2

theorem getElem?_closing (text : Text) : ∀ n, closing text = some n → text[n]? = some quote := by
  fun_induction closing text with
  | case1 => intro n h; cases h
  | case2 rest => intro n h; cases h; rfl
  | case3 hquote => intro n h; cases h
  | case4 hquote d rest ih =>
    intro n h
    obtain ⟨m, hm, rfl⟩ := Option.map_eq_some_iff.mp h
    exact ih m hm
  | case5 c rest hquote hback ih =>
    intro n h
    obtain ⟨m, hm, rfl⟩ := Option.map_eq_some_iff.mp h
    exact ih m hm

/-- A literal starts and ends with a quote. -/
theorem quotes_of_mem_stringLiteralsFrom : ∀ (text : Text) (skip pos : ℕ) (l : ℕ × ℕ),
    l ∈ stringLiteralsFrom skip pos text →
      text[l.1 - pos]? = some quote ∧ text[l.2 - pos]? = some quote := by
  intro text
  induction text with
  | nil => intro skip pos l hl; simp [stringLiteralsFrom] at hl
  | cons c rest ih =>
    -- a position in the rest of the text, seen from the whole text
    have hshift : ∀ {skip pos : ℕ} {l : ℕ × ℕ}, l ∈ stringLiteralsFrom skip (pos + 1) rest →
        (c :: rest)[l.1 - pos]? = some quote ∧ (c :: rest)[l.2 - pos]? = some quote := by
      intro skip pos l hl
      obtain ⟨hle, hlt⟩ := (stringLiteralsFrom_spec rest skip (pos + 1)).1 l hl
      have h1 : l.1 - pos = (l.1 - (pos + 1)) + 1 := by omega
      have h2 : l.2 - pos = (l.2 - (pos + 1)) + 1 := by omega
      rw [h1, h2, List.getElem?_cons_succ, List.getElem?_cons_succ]
      exact ih skip (pos + 1) l hl
    intro skip pos l hl
    cases skip with
    | succ skip =>
      rw [stringLiteralsFrom] at hl
      exact hshift hl
    | zero =>
      rw [stringLiteralsFrom] at hl
      split at hl
      next hquote =>
        split at hl
        next n hn =>
          rcases List.mem_cons.mp hl with rfl | hl
          · have h2 : pos + 1 + n - pos = n + 1 := by omega
            refine ⟨by simp [hquote], ?_⟩
            rw [h2, List.getElem?_cons_succ]
            exact getElem?_closing rest n hn
          · exact hshift hl
        next => exact hshift hl
      next => exact hshift hl

theorem quotes_of_mem_stringLiterals {text : Text} {l : ℕ × ℕ} (hl : l ∈ stringLiterals text) :
    text[l.1]? = some quote ∧ text[l.2]? = some quote :=
  quotes_of_mem_stringLiteralsFrom text 0 0 l hl

/-! ### What the loops skip and what stops them -/

/-- How many backslashes directly follow position `k`, counting those before `n` only. -/
def backslashesAfter (text : Text) (k n : ℕ) : ℕ :=
  ((slice text (k + 1) (n - (k + 1))).takeWhile (· == backslash)).length

/-- An even number of backslashes directly follow position `k`.  Going left, the loop takes
them two at a time and then reads the character at `k`. -/
def Unskipped (text : Text) (k n : ℕ) : Prop := Even (backslashesAfter text k n)

instance (text : Text) (k n : ℕ) : Decidable (Unskipped text k n) :=
  inferInstanceAs (Decidable (Even _))

theorem slice_succ {text : Text} {i n : ℕ} {c : JChar} (hi : i ≤ n) (hc : text[n]? = some c) :
    slice text i (n + 1 - i) = slice text i (n - i) ++ [c] := by
  have h := congrArg List.reverse (reverse_slice_succ hi hc)
  simpa using h

@[simp] theorem backslashesAfter_last (text : Text) (n : ℕ) :
    backslashesAfter text n (n + 1) = 0 := by
  simp [backslashesAfter, slice]

theorem unskipped_last (text : Text) (n : ℕ) : Unskipped text n (n + 1) := by
  rw [Unskipped, backslashesAfter_last]
  exact Even.zero

theorem length_slice {text : Text} {i n : ℕ} (hn : n ≤ text.length) :
    (slice text i (n - i)).length = n - i := by
  simp only [slice, List.length_take, List.length_drop]
  omega

/-- A character that is no backslash ends the run before it. -/
theorem backslashesAfter_succ {text : Text} {k n : ℕ} {c : JChar} (hk : k < n)
    (hc : text[n]? = some c) (hback : c ≠ backslash) :
    backslashesAfter text k (n + 1) = backslashesAfter text k n := by
  rw [backslashesAfter, slice_succ (show k + 1 ≤ n from hk) hc, List.takeWhile_append]
  simp only [List.takeWhile_cons, beq_iff_eq, hback, if_false, List.append_nil]
  split
  next h => exact h.symm
  next h => rfl

theorem backslashesAfter_le (text : Text) (k n : ℕ) :
    backslashesAfter text k n ≤ n - (k + 1) := by
  calc backslashesAfter text k n
      ≤ (slice text (k + 1) (n - (k + 1))).length := (List.takeWhile_sublist _).length_le
    _ ≤ n - (k + 1) := List.length_take_le _ _

/-- A backslash extends a run that reaches it. -/
theorem backslashesAfter_extend {text : Text} {k n : ℕ} (hk : k < n)
    (hc : text[n]? = some backslash) (hrun : backslashesAfter text k n = n - (k + 1)) :
    backslashesAfter text k (n + 1) = n - k := by
  have hlen : (slice text (k + 1) (n - (k + 1))).length = n - (k + 1) :=
    length_slice (Nat.le_of_lt (List.getElem?_eq_some_iff.mp hc).1)
  have hall := hrun.trans hlen.symm
  rw [backslashesAfter] at hall
  rw [backslashesAfter, slice_succ (show k + 1 ≤ n from hk) hc, List.takeWhile_append, if_pos hall]
  simp only [List.takeWhile_cons, beq_self_eq_true, if_true, List.takeWhile_nil,
    List.length_append, hlen, List.length_singleton]
  omega

/-- A run that ends earlier stays as it is. -/
theorem backslashesAfter_stay {text : Text} {k n : ℕ} {c : JChar} (hk : k < n)
    (hc : text[n]? = some c) (hrun : backslashesAfter text k n ≠ n - (k + 1)) :
    backslashesAfter text k (n + 1) = backslashesAfter text k n := by
  have hlen : (slice text (k + 1) (n - (k + 1))).length = n - (k + 1) :=
    length_slice (Nat.le_of_lt (List.getElem?_eq_some_iff.mp hc).1)
  rw [backslashesAfter, slice_succ (show k + 1 ≤ n from hk) hc, List.takeWhile_append,
    if_neg fun h => hrun (h.trans hlen)]
  rfl

/-- A backslash and the character before it leave the parity of a run as it is. -/
theorem even_backslashesAfter_add_two {text : Text} {k n : ℕ} (hk : k < n)
    (hc : text[n + 1]? = some backslash) :
    Even (backslashesAfter text k (n + 2)) ↔ Even (backslashesAfter text k n) := by
  have hlen : n + 1 < text.length := (List.getElem?_eq_some_iff.mp hc).1
  have hd : text[n]? = some text[n] := List.getElem?_eq_getElem (by omega)
  have hle := backslashesAfter_le text k n
  by_cases hrun : backslashesAfter text k n = n - (k + 1) ∧ text[n] = backslash
  · rw [hrun.2] at hd
    have hone := backslashesAfter_extend hk hd hrun.1
    have htwo : backslashesAfter text k (n + 2) = n + 1 - k :=
      backslashesAfter_extend (show k < n + 1 by omega) hc (by omega)
    have heq : backslashesAfter text k (n + 2) = backslashesAfter text k n + 2 := by omega
    rw [heq, Nat.even_add_one, Nat.even_add_one, not_not]
  · have hone : backslashesAfter text k (n + 1) = backslashesAfter text k n := by
      by_cases hback : text[n] = backslash
      · exact backslashesAfter_stay hk hd fun h => hrun ⟨h, hback⟩
      · exact backslashesAfter_succ hk hd hback
    rw [backslashesAfter_stay (show k < n + 1 by omega) hc (by omega), hone]

/-- The run of the position before a last backslash is that backslash. -/
theorem backslashesAfter_add_two_self {text : Text} {n : ℕ} (hc : text[n + 1]? = some backslash) :
    backslashesAfter text n (n + 2) = 1 := by
  rw [backslashesAfter_extend (Nat.lt_succ_self n) hc (by simp)]
  omega

/-- The quote at `i` is the nearest character before `n` that stops a loop and is not
skipped. -/
structure NearestQuote (text : Text) (n i : ℕ) : Prop where
  lt : i < n
  opening : text[i]? = some quote
  unskipped : Unskipped text i n
  skipped : ∀ k, i < k → k < n → ∀ c, text[k]? = some c → stopsComment c = true →
    ¬ Unskipped text k n

/-- Where the last character is a quote, it is the nearest one. -/
theorem nearestQuote_quote_iff {text : Text} {n i : ℕ} (hc : text[n]? = some quote) :
    NearestQuote text (n + 1) i ↔ i = n := by
  constructor
  · intro h
    have hlt := h.lt
    by_contra hne
    exact h.skipped n (by omega) (by omega) quote hc stopsComment_quote (unskipped_last text n)
  · rintro rfl
    refine ⟨by omega, hc, unskipped_last text i, ?_⟩
    intro k hik hki
    omega

/-- Any other character that stops a loop hides the quotes before it. -/
theorem not_nearestQuote_of_stops {text : Text} {n i : ℕ} {c : JChar} (hc : text[n]? = some c)
    (hquote : c ≠ quote) (hstop : stopsComment c = true) : ¬ NearestQuote text (n + 1) i := by
  intro h
  have hlt := h.lt
  have hne : i ≠ n := by
    rintro rfl
    exact hquote (Option.some.inj (hc.symm.trans h.opening))
  exact h.skipped n (by omega) (by omega) c hc hstop (unskipped_last text n)

/-- Characters that do not stop a loop can be left out. -/
theorem nearestQuote_succ_iff {text : Text} {n i : ℕ} {c : JChar} (hc : text[n]? = some c)
    (hback : c ≠ backslash) (hquote : c ≠ quote) (hstop : stopsComment c = false) :
    NearestQuote text (n + 1) i ↔ NearestQuote text n i := by
  have hrun : ∀ k, k < n → (Unskipped text k (n + 1) ↔ Unskipped text k n) := by
    intro k hk
    rw [Unskipped, Unskipped, backslashesAfter_succ hk hc hback]
  constructor
  · intro h
    have hlt := h.lt
    have hne : i ≠ n := by
      rintro rfl
      exact hquote (Option.some.inj (hc.symm.trans h.opening))
    refine ⟨by omega, h.opening, (hrun i (by omega)).mp h.unskipped, ?_⟩
    intro k hik hkn d hd hdstop
    rw [← hrun k hkn]
    exact h.skipped k hik (by omega) d hd hdstop
  · intro h
    have hlt := h.lt
    refine ⟨by omega, h.opening, (hrun i hlt).mpr h.unskipped, ?_⟩
    intro k hik hkn d hd hdstop
    rcases Nat.eq_or_lt_of_le (Nat.le_of_lt_succ hkn) with rfl | hkn
    · rw [hc] at hd
      cases hd
      rw [hstop] at hdstop
      cases hdstop
    · rw [hrun k hkn]
      exact h.skipped k hik hkn d hd hdstop

/-- A backslash takes the character on its left with it. -/
theorem nearestQuote_backslash_iff {text : Text} {n i : ℕ} (hc : text[n + 1]? = some backslash) :
    NearestQuote text (n + 2) i ↔ NearestQuote text n i := by
  have hrun : ∀ k, k < n → (Unskipped text k (n + 2) ↔ Unskipped text k n) :=
    fun k hk => even_backslashesAfter_add_two hk hc
  have hself : ¬ Unskipped text n (n + 2) := by
    rw [Unskipped, backslashesAfter_add_two_self hc]
    decide
  constructor
  · intro h
    have hlt := h.lt
    have hne : i ≠ n + 1 := by
      rintro rfl
      exact quote_ne_backslash (Option.some.inj (h.opening.symm.trans hc))
    have hne' : i ≠ n := by
      rintro rfl
      exact hself h.unskipped
    refine ⟨by omega, h.opening, (hrun i (by omega)).mp h.unskipped, ?_⟩
    intro k hik hkn d hd hdstop
    rw [← hrun k hkn]
    exact h.skipped k hik (by omega) d hd hdstop
  · intro h
    have hlt := h.lt
    refine ⟨by omega, h.opening, (hrun i hlt).mpr h.unskipped, ?_⟩
    intro k hik hkn d hd hdstop
    obtain rfl | rfl | hkn : k = n + 1 ∨ k = n ∨ k < n := by omega
    · rw [hc] at hd
      cases hd
      exact absurd hdstop (by decide)
    · exact hself
    · rw [hrun k hkn]
      exact h.skipped k hik hkn d hd hdstop

/-- **The loop to the left ends at the nearest quote that is not skipped.** -/
theorem opens_iff_nearestQuote {text : Text} {i : ℕ} : ∀ n, n ≤ text.length →
    (Opens text n i ↔ NearestQuote text n i) := by
  intro n
  -- the loop goes back by one or by two
  induction n using Nat.strong_induction_on with
  | _ n ih =>
    intro hn
    cases n with
    | zero => exact iff_of_false not_opens_zero fun h => absurd h.lt (by omega)
    | succ n =>
      have hd : text[n]? = some text[n] := List.getElem?_eq_getElem (by omega)
      by_cases hback : text[n] = backslash
      · rw [hback] at hd
        cases n with
        | zero =>
          refine iff_of_false (not_opens_one hd quote_ne_backslash.symm) fun h => ?_
          obtain rfl : i = 0 := by have hlt := h.lt; omega
          exact quote_ne_backslash (Option.some.inj (h.opening.symm.trans hd))
        | succ n =>
          rw [opens_backslash_iff hd, nearestQuote_backslash_iff hd]
          exact ih n (by omega) (by omega)
      · by_cases hquote : text[n] = quote
        · rw [hquote] at hd
          rw [nearestQuote_quote_iff hd]
          refine ⟨fun h => h.eq_of_quote hd, ?_⟩
          rintro rfl
          exact Opens.self hd
        · rw [opens_succ_iff hd hback hquote]
          cases hstop : stopsComment text[n] with
          | true =>
            exact iff_of_false (fun h => absurd h.1 (by decide))
              (not_nearestQuote_of_stops hd hquote hstop)
          | false =>
            rw [nearestQuote_succ_iff hd hback hquote hstop, ih n (by omega) (by omega)]
            exact and_iff_right rfl

/-- The characters between the caret and two quotes hide neither of them: every quote and
carriage return up to the caret is skipped but the first quote, and there is none from the
caret to the second quote. -/
structure InSight (text : Text) (p : ℕ) (quotes : ℕ × ℕ) : Prop where
  opening : Unskipped text quotes.1 (p + 1)
  before : ∀ k, quotes.1 < k → k ≤ p → ∀ c, text[k]? = some c → stopsComment c = true →
    ¬ Unskipped text k (p + 1)
  after : ∀ k, p ≤ k → k < quotes.2 → ∀ c, text[k]? = some c → stopsComment c = false

/-- Every quote on the left of the caret is skipped, or there is a carriage return between
it and the caret that is not. -/
def CarriageReturnBefore (text : Text) (p : ℕ) : Prop :=
  ∀ i, i < p → text[i]? = some quote → Unskipped text i (p + 1) →
    ∃ k, i < k ∧ k ≤ p ∧ text[k]? = some LINE_SEPARATOR ∧ Unskipped text k (p + 1)

/-- There is a carriage return between the caret and every quote on its right. -/
def CarriageReturnAfter (text : Text) (p : ℕ) : Prop :=
  ∀ j, p < j → text[j]? = some quote → ∃ k, p ≤ k ∧ k < j ∧ text[k]? = some LINE_SEPARATOR

theorem stopsComment_iff {c : JChar} : stopsComment c = true ↔ c = LINE_SEPARATOR ∨ c = quote := by
  simp [stopsComment]

/-- Two quotes are in sight exactly when the loops end at them. -/
theorem enclosed_iff_inSight {text : Text} {p : ℕ} {l : ℕ × ℕ} (hopen : text[l.1]? = some quote)
    (hclose : text[l.2]? = some quote) (hlt : l.1 < p) (hgt : p < l.2) :
    Enclosed text l.1 l.2 p ↔ InSight text p l := by
  have hlen : l.2 < text.length := (List.getElem?_eq_some_iff.mp hclose).1
  have hnear : Opens text (p + 1) l.1 ↔ NearestQuote text (p + 1) l.1 :=
    opens_iff_nearestQuote (p + 1) (by omega)
  constructor
  · intro h
    obtain ⟨-, -, hunskipped, hskipped⟩ := hnear.mp h.opens
    exact ⟨hunskipped, fun k hik hkp => hskipped k hik (by omega), h.closes.passes⟩
  · intro h
    refine ⟨hlt, hgt, hnear.mpr ⟨by omega, hopen, h.opening, ?_⟩, Nat.le_of_lt hgt, hclose, h.after⟩
    exact fun k hik hkp => h.before k hik (by omega)

section CarriageReturns

variable {text : Text} {p : ℕ}

/-- The loop to the left finds a quote exactly when no carriage return is in the way. -/
theorem exists_opens_iff (hp : text[p]? ≠ some quote) (hlen : p < text.length) :
    (∃ i, Opens text (p + 1) i) ↔ ¬ CarriageReturnBefore text p := by
  simp only [opens_iff_nearestQuote (p + 1) hlen]
  constructor
  · rintro ⟨i, h⟩ hcr
    have hlt := h.lt
    have hne : i ≠ p := fun heq => hp (heq ▸ h.opening)
    obtain ⟨k, hik, hkp, hk, hunskipped⟩ := hcr i (by omega) h.opening h.unskipped
    exact h.skipped k hik (by omega) _ hk (stopsComment_iff.mpr (Or.inl rfl)) hunskipped
  · intro h
    simp only [CarriageReturnBefore, not_forall, not_exists, not_and] at h
    obtain ⟨i₀, hi₀, hquote₀, hunskipped₀, hnone⟩ := h
    -- the last quote that is not skipped
    let P : ℕ → Prop := fun i => i < p ∧ text[i]? = some quote ∧ Unskipped text i (p + 1)
    have hP₀ : P i₀ := ⟨hi₀, hquote₀, hunskipped₀⟩
    obtain ⟨hlt, hquote, hunskipped⟩ : P (Nat.findGreatest P p) :=
      Nat.findGreatest_spec (Nat.le_of_lt hi₀) hP₀
    have hle : i₀ ≤ Nat.findGreatest P p := Nat.le_findGreatest (Nat.le_of_lt hi₀) hP₀
    refine ⟨Nat.findGreatest P p, by omega, hquote, hunskipped, ?_⟩
    intro k hik hkp c hc hstop hk
    rcases stopsComment_iff.mp hstop with rfl | rfl
    · exact hnone k (by omega) (by omega) hc hk
    · have hne : k ≠ p := fun heq => hp (heq ▸ hc)
      exact Nat.findGreatest_is_greatest hik (by omega) ⟨by omega, hc, hk⟩

/-- The loop to the right finds a quote exactly when no carriage return is in the way. -/
theorem exists_closes_iff (hp : text[p]? ≠ some quote) :
    (∃ j, Closes text p j) ↔ ¬ CarriageReturnAfter text p := by
  constructor
  · rintro ⟨j, h⟩ hcr
    have hle := h.le
    have hne : j ≠ p := fun heq => hp (heq ▸ h.closing)
    obtain ⟨k, hpk, hkj, hk⟩ := hcr j (by omega) h.closing
    exact absurd (h.passes k hpk hkj _ hk) (by decide)
  · intro h
    simp only [CarriageReturnAfter, not_forall, not_exists, not_and] at h
    obtain ⟨j₀, hj₀, hquote₀, hnone⟩ := h
    -- the first quote
    have hex : ∃ j, p < j ∧ text[j]? = some quote := ⟨j₀, hj₀, hquote₀⟩
    obtain ⟨hlt, hquote⟩ := Nat.find_spec hex
    have hle : Nat.find hex ≤ j₀ := Nat.find_min' hex ⟨hj₀, hquote₀⟩
    refine ⟨Nat.find hex, Nat.le_of_lt hlt, hquote, ?_⟩
    intro k hpk hkj c hc
    rw [← Bool.not_eq_true, stopsComment_iff, not_or]
    constructor
    · rintro rfl
      exact hnone k hpk (by omega) hc
    · rintro rfl
      have hne : k ≠ p := fun heq => hp (heq ▸ hc)
      exact Nat.find_min hex hkj ⟨by omega, hc⟩

/-- The loops find no quotes exactly when a carriage return is in the way on one side. -/
theorem not_enclosed_iff (hp : text[p]? ≠ some quote) :
    (¬ ∃ i j, Enclosed text i j p) ↔ CarriageReturnBefore text p ∨ CarriageReturnAfter text p := by
  have hboth : (∃ i j, Enclosed text i j p) ↔
      (∃ i, Opens text (p + 1) i) ∧ ∃ j, Closes text p j := by
    constructor
    · rintro ⟨i, j, h⟩
      exact ⟨⟨i, h.opens⟩, j, h.closes⟩
    · rintro ⟨⟨i, hopens⟩, j, hcloses⟩
      exact ⟨i, j, .of_opens_closes hp hopens hcloses⟩
  rcases Nat.lt_or_ge p text.length with hlen | hlen
  · rw [hboth, exists_opens_iff hp hlen, exists_closes_iff hp, ← not_or, not_not]
  · -- past the end of the text there is no quote on the right
    have hafter : CarriageReturnAfter text p := by
      intro j hj hquote
      have hjlen := (List.getElem?_eq_some_iff.mp hquote).1
      omega
    refine iff_of_true (fun h => ?_) (Or.inr hafter)
    exact (exists_closes_iff hp).mp (hboth.mp h).2 hafter

end CarriageReturns

/-! ### The literal around the caret -/

/-- A double click at `p` selects the inside of the literal around `p`, and nothing else;
a literal that runs over a line end need not be selected. -/
structure SelectsLiterals (text : Text) (p : ℕ) : Prop where
  sound : ∀ r, selectComment text p = some r →
    ∃ l ∈ stringLiterals text, r = inside l ∧ l.1 ≤ p ∧ p ≤ l.2
  complete : ∀ l ∈ stringLiterals text, l.1 < p → p < l.2 →
    (literalText text l).any isLineEnd = false → selectComment text p = some (inside l)

/-- The literals enclosing the caret strictly are the selected ones. -/
theorem SelectsLiterals.literal_of_enclosed {text : Text} {p i j : ℕ} (h : SelectsLiterals text p)
    (hp : text[p]? ≠ some quote) (henc : Enclosed text i j p) : (i, j) ∈ stringLiterals text := by
  have hsel : selectComment text p = some (inside (i, j)) :=
    (selectComment_off_quote hp).mpr ⟨i, j, henc, rfl⟩
  obtain ⟨l, hl, hins, -⟩ := h.sound _ hsel
  rw [inside_injective hins]
  exact hl

/-- The caret is not on a quote.  The quotes of a literal around it are in sight, or the
literal runs over a line end and a carriage return is in the way on one side of the caret;
where no literal is around the caret, a carriage return is in the way. -/
structure LiteralInSight (text : Text) (p : ℕ) : Prop where
  offQuote : text[p]? ≠ some quote
  within : ∀ l ∈ stringLiterals text, l.1 < p → p < l.2 →
    InSight text p l ∨ ((literalText text l).any isLineEnd = true ∧
      (CarriageReturnBefore text p ∨ CarriageReturnAfter text p))
  outside : (∀ l ∈ stringLiterals text, ¬ (l.1 < p ∧ p < l.2)) →
    CarriageReturnBefore text p ∨ CarriageReturnAfter text p

/-- The loops end at the quotes of a literal around the caret exactly when these are in
sight. -/
theorem enclosed_literal_iff {text : Text} {p : ℕ} {l : ℕ × ℕ} (hl : l ∈ stringLiterals text)
    (hlt : l.1 < p) (hgt : p < l.2) : Enclosed text l.1 l.2 p ↔ InSight text p l := by
  obtain ⟨hopen, hclose⟩ := quotes_of_mem_stringLiterals hl
  exact enclosed_iff_inSight hopen hclose hlt hgt

theorem LiteralInSight.sound {text : Text} {p : ℕ} (h : LiteralInSight text p)
    {r : SelectedRange} (hr : selectComment text p = some r) :
    ∃ l ∈ stringLiterals text, r = inside l ∧ l.1 ≤ p ∧ p ≤ l.2 := by
  have hsel := hr
  rw [selectComment_off_quote h.offQuote] at hr
  obtain ⟨i, j, henc, -⟩ := hr
  have hway : ¬ (CarriageReturnBefore text p ∨ CarriageReturnAfter text p) :=
    fun hcr => (not_enclosed_iff h.offQuote).mpr hcr ⟨i, j, henc⟩
  by_cases hin : ∃ l ∈ stringLiterals text, l.1 < p ∧ p < l.2
  · obtain ⟨l, hl, hlt, hgt⟩ := hin
    rcases h.within l hl hlt hgt with hsight | ⟨-, hcr⟩
    · have hsel' : selectComment text p = some (inside l) :=
        (selectComment_off_quote h.offQuote).mpr
          ⟨l.1, l.2, (enclosed_literal_iff hl hlt hgt).mpr hsight, rfl⟩
      rw [hsel'] at hsel
      exact ⟨l, hl, (Option.some.inj hsel).symm, Nat.le_of_lt hlt, Nat.le_of_lt hgt⟩
    · exact absurd hcr hway
  · exact absurd (h.outside fun l hl hlt => hin ⟨l, hl, hlt⟩) hway

/-- **When a double click selects the inside of a literal**: when the characters around
the caret hide neither quote of the literal. -/
theorem selectComment_literal_iff (text : Text) (p : ℕ) :
    SelectsLiterals text p ↔ LiteralInSight text p := by
  constructor
  · intro h
    have hp : text[p]? ≠ some quote := by
      intro hq
      -- the range selected on a quote is shorter than that of any literal
      obtain ⟨l, hl, hins, -⟩ := h.sound _ (selectComment_on_quote hq)
      have hlt := stringLiterals_lt hl
      rw [← inside_injective hins] at hlt
      exact Nat.lt_irrefl p hlt
    refine ⟨hp, fun l hl hlt hgt => ?_, fun hout => ?_⟩
    · by_cases henc : ∃ i j, Enclosed text i j p
      · -- the selected literal contains the caret, and there is only one that does
        obtain ⟨i, j, henc⟩ := henc
        have hij := h.literal_of_enclosed hp henc
        have heq := stringLiterals_unique hl hij ⟨hlt, hgt⟩
          ⟨Nat.le_of_lt henc.before, Nat.le_of_lt henc.after⟩
        rw [← enclosed_literal_iff hl hlt hgt, ← heq]
        exact Or.inl henc
      · refine Or.inr ⟨?_, (not_enclosed_iff hp).mp henc⟩
        cases hline : (literalText text l).any isLineEnd with
        | true => rfl
        | false =>
          have hsel := h.complete l hl hlt hgt hline
          obtain ⟨i, j, henc', -⟩ := (selectComment_off_quote hp).mp hsel
          exact absurd ⟨i, j, henc'⟩ henc
    · rw [← not_enclosed_iff hp]
      rintro ⟨i, j, henc⟩
      exact hout _ (h.literal_of_enclosed hp henc) ⟨henc.before, henc.after⟩
  · intro h
    refine ⟨fun r hr => h.sound hr, fun l hl hlt hgt hline => ?_⟩
    rcases h.within l hl hlt hgt with hsight | ⟨hends, -⟩
    · exact (selectComment_off_quote h.offQuote).mpr
        ⟨l.1, l.2, (enclosed_literal_iff hl hlt hgt).mpr hsight, rfl⟩
    · rw [hline] at hends
      cases hends

/-- The text `"a","b"`: a double click on the comma selects it. -/
def betweenLiterals : Text := [quote, 97, quote, 44, quote, 98, quote]

/-- The text `"a\"b"`: a double click on `b` selects the end of the literal only. -/
def escapedQuote : Text := [quote, 97, backslash, quote, 98, quote]

theorem selectComment_misses_literals :
    ¬ SelectsLiterals betweenLiterals 3 ∧ ¬ SelectsLiterals escapedQuote 4 := by
  constructor
  · intro h
    have hlit := h.sound ⟨3, 1⟩ (by decide)
    revert hlit
    decide
  · intro h
    have hsel := h.complete (0, 5) (by decide) (by decide) (by decide) (by decide)
    revert hsel
    decide

end XMLDoubleClickStrategy

end SilverTree
