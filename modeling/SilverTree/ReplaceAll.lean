import Mathlib.Algebra.Order.Group.Nat
import Mathlib.Data.List.Infix

/-!
# Replacing every occurrence of a sequence

`String.replace` of Java replaces the occurrences of a sequence from left to right, each
found after the end of the one before.  It is given here for lists over any type, with
the number of the occurrences it replaces.

## Main definitions

* `replaceAll old new l` — the list with every occurrence replaced.
* `occurrences old l` — how many there are.

## Main results

* `length_replaceAll` — **the length of the result** is that of the list, less the
  occurrences of `old` and with as many of `new`.
* `occurrences_pos` — a list that contains `old` has an occurrence.
* `replaceAll_ne_self` — a replacement of the same length changes the list.
* `mem_replaceAll` — what is not in `old` stays in the list.
* `not_infix_replaceAll` — **no occurrence is left** where none can arise from the
  replacement.
-/

namespace ReplaceAll

variable {α : Type*} [DecidableEq α] (old new : List α)

/-- The loop of the replacement, with `skip` elements left of an occurrence already
replaced. -/
def replaceFrom : ℕ → List α → List α
  | _, [] => []
  | skip + 1, _ :: rest => replaceFrom skip rest
  | 0, a :: rest =>
    if old <+: a :: rest then new ++ replaceFrom (old.length - 1) rest
    else a :: replaceFrom 0 rest

/-- The occurrences the loop replaces. -/
def occurrencesFrom : ℕ → List α → ℕ
  | _, [] => 0
  | skip + 1, _ :: rest => occurrencesFrom skip rest
  | 0, a :: rest =>
    if old <+: a :: rest then occurrencesFrom (old.length - 1) rest + 1
    else occurrencesFrom 0 rest

/-- Every occurrence of `old` replaced by `new`. -/
def replaceAll (l : List α) : List α := replaceFrom old new 0 l

/-- The number of occurrences that are replaced. -/
def occurrences (l : List α) : ℕ := occurrencesFrom old 0 l

variable {old}

theorem length_replaceFrom (hold : old ≠ []) : ∀ (l : List α) (skip : ℕ), skip ≤ l.length →
    (replaceFrom old new skip l).length + skip + occurrencesFrom old skip l * old.length
      = l.length + occurrencesFrom old skip l * new.length := by
  have hpos : 0 < old.length := List.length_pos_iff.mpr hold
  intro l
  induction l with
  | nil =>
    intro skip hskip
    simp only [List.length_nil, Nat.le_zero_eq] at hskip
    simp [replaceFrom, occurrencesFrom, hskip]
  | cons a rest ih =>
    intro skip hskip
    rw [List.length_cons] at hskip
    cases skip with
    | succ skip =>
      have h := ih skip (by omega)
      rw [replaceFrom, occurrencesFrom, List.length_cons]
      omega
    | zero =>
      by_cases hocc : old <+: a :: rest
      · -- the rest of the occurrence is skipped, and it is all there
        have hle : old.length ≤ rest.length + 1 := hocc.length_le
        have h := ih (old.length - 1) (by omega)
        rw [replaceFrom, occurrencesFrom, if_pos hocc, if_pos hocc, List.length_append,
          List.length_cons, Nat.succ_mul, Nat.succ_mul]
        omega
      · have h := ih 0 (Nat.zero_le _)
        rw [replaceFrom, occurrencesFrom, if_neg hocc, if_neg hocc, List.length_cons,
          List.length_cons]
        omega

/-- **The length of the result.** -/
theorem length_replaceAll (hold : old ≠ []) (l : List α) :
    (replaceAll old new l).length + occurrences old l * old.length
      = l.length + occurrences old l * new.length :=
  length_replaceFrom new hold l 0 (Nat.zero_le _)

/-- A list that contains `old` has an occurrence. -/
theorem occurrences_pos (hold : old ≠ []) : ∀ {l : List α}, old <:+: l → 0 < occurrences old l := by
  intro l
  induction l with
  | nil => exact fun h => absurd (List.infix_nil.mp h) hold
  | cons a rest ih =>
    intro h
    rw [occurrences, occurrencesFrom]
    split
    · exact Nat.succ_pos _
    · rename_i hocc
      rcases List.infix_cons_iff.mp h with hfirst | hrest
      · exact absurd hfirst hocc
      · exact ih hrest

/-- Replacing by something of the same length changes a list that contains `old`. -/
theorem replaceAll_ne_self (hold : old ≠ []) (hlen : old.length = new.length) (hne : old ≠ new) :
    ∀ {l : List α}, old <:+: l → replaceAll old new l ≠ l := by
  intro l
  induction l with
  | nil => exact fun h => absurd (List.infix_nil.mp h) hold
  | cons a rest ih =>
    intro h heq
    rw [replaceAll, replaceFrom] at heq
    split at heq
    · -- the first occurrence is at the start, where both lists go on with a sequence
      rename_i hocc
      have hnew : new <+: a :: rest := ⟨_, heq⟩
      exact hne (List.prefix_of_prefix_length_le hocc hnew (by omega) |>.eq_of_length hlen)
    · rename_i hocc
      rcases List.infix_cons_iff.mp h with hfirst | hrest
      · exact hocc hfirst
      · exact ih hrest (List.cons.inj heq).2

/-- The elements that are skipped are those of an occurrence. -/
theorem mem_replaceFrom {x : α} (hold : old ≠ []) (hx : x ∉ old) : ∀ (l : List α) (skip : ℕ),
    x ∉ l.take skip → x ∈ l → x ∈ replaceFrom old new skip l := by
  intro l
  induction l with
  | nil => exact fun skip _ hmem => absurd hmem List.not_mem_nil
  | cons a rest ih =>
    intro skip hskip hmem
    cases skip with
    | succ skip =>
      rw [List.take_succ_cons, List.mem_cons, not_or] at hskip
      rw [replaceFrom]
      exact ih skip hskip.2 ((List.mem_cons.mp hmem).resolve_left hskip.1)
    | zero =>
      rw [replaceFrom]
      split
      next hocc =>
        obtain ⟨b, tail, rfl⟩ := List.exists_cons_of_ne_nil hold
        obtain ⟨rfl, htail⟩ := List.cons_prefix_cons.mp hocc
        rw [List.mem_cons, not_or] at hx
        refine List.mem_append_right _ (ih _ ?_ ((List.mem_cons.mp hmem).resolve_left hx.1))
        rw [List.length_cons, Nat.add_sub_cancel, ← List.prefix_iff_eq_take.mp htail]
        exact hx.2
      next =>
        rcases List.mem_cons.mp hmem with rfl | hmem
        · exact List.mem_cons_self ..
        · exact List.mem_cons_of_mem _ (ih 0 (by simp) hmem)

/-- What is not in `old` stays in the list. -/
theorem mem_replaceAll {x : α} (hold : old ≠ []) (hx : x ∉ old) {l : List α} (hmem : x ∈ l) :
    x ∈ replaceAll old new l :=
  mem_replaceFrom new hold hx l 0 (by simp) hmem

/-! ### What is left of the replaced sequence -/

/-- Two sequences are apart when neither is the start of the other. -/
def Apart (u v : List α) : Prop := ¬ u <+: v ∧ ¬ v <+: u

instance (u v : List α) : Decidable (Apart u v) := inferInstanceAs (Decidable (_ ∧ _))

omit [DecidableEq α] in
/-- Sequences that are apart do not become the start of each other by going on. -/
theorem Apart.not_prefix_append {u v : List α} (h : Apart u v) (r : List α) : ¬ u <+: v ++ r := by
  intro hpre
  rcases Nat.le_total u.length v.length with hle | hle
  · exact h.1 (List.prefix_of_prefix_length_le hpre (List.prefix_append v r) hle)
  · exact h.2 (List.prefix_of_prefix_length_le (List.prefix_append v r) hpre hle)

omit [DecidableEq α] in
/-- An occurrence that cannot start inside `v` starts after it. -/
theorem infix_of_infix_append {v r : List α} (hapart : ∀ u, u <:+ v → u ≠ [] → Apart old u)
    (h : old <:+: v ++ r) : old <:+: r := by
  induction v with
  | nil => exact h
  | cons b v ih =>
    rw [List.cons_append] at h
    rcases List.infix_cons_iff.mp h with hfirst | hrest
    · have hne : b :: v ≠ [] := List.cons_ne_nil b v
      exact absurd hfirst ((hapart _ List.suffix_rfl hne).not_prefix_append r)
    · exact ih (fun u hu => hapart u (hu.trans (List.suffix_cons b v))) hrest

/-- What the result starts with, up to the first element of a replacement, the list does. -/
theorem prefix_of_prefix_replaceFrom {a : α} {rest : List α} (hnew : new = a :: rest) :
    ∀ (t l : List α), a ∉ t → t <+: replaceFrom old new 0 l → t <+: l := by
  intro t
  induction t with
  | nil => exact fun l _ _ => List.nil_prefix
  | cons b t ih =>
    intro l ha hpre
    cases l with
    | nil =>
      rw [replaceFrom] at hpre
      exact hpre
    | cons c l =>
      rw [replaceFrom] at hpre
      split at hpre
      · -- the replacement starts with `a`, the prefix with something else
        rw [hnew, List.cons_append] at hpre
        have hb : b = a := (List.cons_prefix_cons.mp hpre).1
        exact absurd (List.mem_cons.mpr (Or.inl hb.symm)) ha
      · obtain ⟨hbc, hpre⟩ := List.cons_prefix_cons.mp hpre
        refine List.cons_prefix_cons.mpr ⟨hbc, ih l ?_ hpre⟩
        exact fun hmem => ha (List.mem_cons_of_mem b hmem)

/-- **No occurrence is left**, when `old` and `new` start with the same element, which `old`
has only there, and `old` is apart from all that `new` ends with. -/
theorem not_infix_replaceAll {a : α} {tail rest : List α} (hold : old = a :: tail)
    (hnew : new = a :: rest) (ha : a ∉ tail) (hapart : ∀ u, u <:+ new → u ≠ [] → Apart old u)
    (l : List α) : ¬ old <:+: replaceAll old new l := by
  have hnil : ¬ old <:+: [] := by
    intro h
    rw [List.infix_nil.mp h] at hold
    cases hold
  have hall : ∀ (l : List α) (skip : ℕ), ¬ old <:+: replaceFrom old new skip l := by
    intro l
    induction l with
    | nil => exact fun skip => hnil
    | cons c l ih =>
      intro skip
      cases skip with
      | succ skip =>
        rw [replaceFrom]
        exact ih skip
      | zero =>
        rw [replaceFrom]
        split
        · intro h
          exact ih _ (infix_of_infix_append hapart h)
        · rename_i hocc
          intro h
          rcases List.infix_cons_iff.mp h with hfirst | hrest
          · -- an occurrence here would have been replaced
            rw [hold] at hfirst hocc
            obtain ⟨hac, htail⟩ := List.cons_prefix_cons.mp hfirst
            rw [← hold] at htail
            refine hocc (List.cons_prefix_cons.mpr ⟨hac, ?_⟩)
            exact prefix_of_prefix_replaceFrom new hnew tail l ha htail
          · exact ih 0 hrest
  exact hall l 0

end ReplaceAll
