import Mathlib.Algebra.Order.Group.Int
import Mathlib.Data.List.Basic

/-!
# Scanning a list from a position

A loop that walks through a text from a caret, one way or the other, until a character
stops it, ends at the nearest stop on that side or runs off the list.  The two loops and
where they end are stated here for lists over any type.

## Main definitions

* `forward`, `backward` — the loops.
* `EndsAt stop l p j`, `StartsAt stop l n i` — the elements from `p` up to `j`, and from `i`
  up to `n`, do not stop, and what follows `j`, or precedes `i`, does.

## Main results

* `forward_spec`, `backward_spec` — **the loops pass exactly the elements that do not
  stop.**
* `EndsAt.unique`, `StartsAt.unique` — where a loop ends is determined by the list.
-/

namespace Scan

variable {α : Type*} (stop : α → Bool) (l : List α)

/-- The loop to the right, over the rest of the list: the last element it has looked at
and the position it ends at. -/
def forward : List α → α → ℕ → α × ℕ
  | [], c, pos => (c, pos)
  | a :: rest, _, pos => if stop a then (a, pos) else forward rest a (pos + 1)

/-- The loop to the left, from position `n - 1`: the position it ends at, which is `-1`
when it runs off the start.  Looking outside the list is an error. -/
def backward : ℕ → Option ℤ
  | 0 => some (-1)
  | n + 1 =>
    match l[n]? with
    | none => none
    | some a => if stop a then some n else backward n

/-- Nothing stops from `p` up to `j`, and `j` stops or is the end of the list. -/
structure EndsAt (p j : ℕ) : Prop where
  le : p ≤ j
  inList : j ≤ l.length
  passes : ∀ q, p ≤ q → q < j → ∀ a, l[q]? = some a → stop a = false
  stops : j < l.length → ∃ a, l[j]? = some a ∧ stop a = true

/-- Nothing stops from `i` up to `n`, and what precedes `i` stops, if anything does. -/
structure StartsAt (n i : ℕ) : Prop where
  le : i ≤ n
  passes : ∀ q, i ≤ q → q < n → ∀ a, l[q]? = some a → stop a = false
  stops : 0 < i → ∃ a, l[i - 1]? = some a ∧ stop a = true

variable {stop l}

theorem EndsAt.le_of_passes {p j j' : ℕ} (h : EndsAt stop l p j) (hlen : j' ≤ l.length)
    (hpass : ∀ q, p ≤ q → q < j' → ∀ a, l[q]? = some a → stop a = false) : j' ≤ j := by
  by_contra hlt
  obtain ⟨a, ha, hstop⟩ := h.stops (by omega)
  rw [hpass j h.le (by omega) a ha] at hstop
  cases hstop

theorem EndsAt.unique {p j j' : ℕ} (h : EndsAt stop l p j) (h' : EndsAt stop l p j') : j = j' :=
  Nat.le_antisymm (h'.le_of_passes h.inList h.passes) (h.le_of_passes h'.inList h'.passes)

theorem StartsAt.ge_of_passes {n i i' : ℕ} (h : StartsAt stop l n i)
    (hpass : ∀ q, i' ≤ q → q < n → ∀ a, l[q]? = some a → stop a = false) : i ≤ i' := by
  by_contra hlt
  have hle := h.le
  obtain ⟨a, ha, hstop⟩ := h.stops (by omega)
  rw [hpass (i - 1) (by omega) (by omega) a ha] at hstop
  cases hstop

theorem StartsAt.unique {n i i' : ℕ} (h : StartsAt stop l n i) (h' : StartsAt stop l n i') :
    i = i' :=
  Nat.le_antisymm (h.ge_of_passes h'.passes) (h'.ge_of_passes h.passes)

/-- An element that does not stop can be left out, on the left of the others. -/
theorem EndsAt.of_succ {p j : ℕ} {a : α} (h : EndsAt stop l (p + 1) j) (ha : l[p]? = some a)
    (hstop : stop a = false) : EndsAt stop l p j := by
  have hle := h.le
  refine ⟨by omega, h.inList, ?_, h.stops⟩
  intro q hpq hqj b hb
  rcases Nat.eq_or_lt_of_le hpq with heq | hlt
  · subst heq
    rw [ha] at hb
    cases hb
    exact hstop
  · exact h.passes q hlt hqj b hb

/-- An element that does not stop can be left out, on the right of the others. -/
theorem StartsAt.succ {n i : ℕ} {a : α} (h : StartsAt stop l n i) (ha : l[n]? = some a)
    (hstop : stop a = false) : StartsAt stop l (n + 1) i := by
  have hle := h.le
  refine ⟨by omega, ?_, h.stops⟩
  intro q hiq hqn b hb
  rcases Nat.eq_or_lt_of_le (Nat.le_of_lt_succ hqn) with heq | hlt
  · subst heq
    rw [ha] at hb
    cases hb
    exact hstop
  · exact h.passes q hiq hlt b hb

variable (stop)

/-- **The loop to the right** passes the elements that do not stop.  The last element it
has looked at is the one that stopped it; at the end of the list, none has. -/
theorem forward_spec : ∀ (rest : List α) (p : ℕ) (c : α), l.drop p = rest → p ≤ l.length →
    ∃ a j, forward stop rest c p = (a, j) ∧ EndsAt stop l p j ∧
      (j < l.length → l[j]? = some a) ∧ (j = l.length → a = c ∨ stop a = false) := by
  intro rest
  induction rest with
  | nil =>
    intro p c hdrop hp
    have hlen : p = l.length := Nat.le_antisymm hp (List.drop_eq_nil_iff.mp hdrop)
    refine ⟨c, p, rfl, ⟨Nat.le_refl p, hp, ?_, ?_⟩, ?_, fun _ => Or.inl rfl⟩
    · intro q hpq hqp
      omega
    · intro hlt
      omega
    · intro hlt
      omega
  | cons a rest ih =>
    intro p c hdrop hp
    -- the head of the rest is the element at `p`
    have ha : l[p]? = some a := by
      have h := congrArg (fun l => l[0]?) hdrop
      simpa using h
    have hlt : p < l.length := (List.getElem?_eq_some_iff.mp ha).1
    cases hstop : stop a with
    | true =>
      refine ⟨a, p, by simp [forward, hstop], ⟨Nat.le_refl p, hp, ?_, fun _ => ⟨a, ha, hstop⟩⟩,
        fun _ => ha, ?_⟩
      · intro q hpq hqp
        omega
      · intro heq
        omega
    | false =>
      have hrest : l.drop (p + 1) = rest := by
        rw [← List.drop_drop, hdrop, List.drop_one, List.tail_cons]
      have hstep : forward stop (a :: rest) c p = forward stop rest a (p + 1) := by
        simp [forward, hstop]
      obtain ⟨b, j, hrun, hends, hget, hlast⟩ := ih (p + 1) a hrest hlt
      refine ⟨b, j, by rw [hstep, hrun], hends.of_succ ha hstop, hget, fun heq => ?_⟩
      rcases hlast heq with rfl | hpass
      · exact Or.inr hstop
      · exact Or.inr hpass

/-- **The loop to the left** passes the elements that do not stop. -/
theorem backward_spec : ∀ n, n ≤ l.length →
    ∃ i : ℕ, backward stop l n = some ((i : ℤ) - 1) ∧ StartsAt stop l n i := by
  intro n
  induction n with
  | zero =>
    intro hn
    refine ⟨0, by simp [backward], Nat.le_refl 0, ?_, ?_⟩
    · intro q hq hq'
      omega
    · intro h
      omega
  | succ n ih =>
    intro hn
    have ha : l[n]? = some l[n] := List.getElem?_eq_getElem (by omega)
    cases hstop : stop l[n] with
    | true =>
      refine ⟨n + 1, by simp [backward, ha, hstop], Nat.le_refl _, ?_, ?_⟩
      · intro q hq hq'
        omega
      · intro _
        exact ⟨l[n], ha, hstop⟩
    | false =>
      have hstep : backward stop l (n + 1) = backward stop l n := by
        rw [backward, ha]
        simp [hstop]
      obtain ⟨i, hrun, hstarts⟩ := ih (by omega)
      exact ⟨i, by rw [hstep, hrun], hstarts.succ ha hstop⟩

end Scan
