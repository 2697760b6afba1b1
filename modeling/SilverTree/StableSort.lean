import Mathlib.Data.Fintype.EquivFin
import Mathlib.Data.List.Nodup
import Mathlib.Data.List.Range

/-!
# The permutation of a stable sort

`List.mergeSort` is stable: breaking ties by the position in the list changes
nothing.  Read off at the level of positions, this is a permutation of the indices
that makes the list nondecreasing and keeps ties in their original order.

The second half is the flattening of a list into two entries per element, position
by position.

## Main results

* `exists_perm_mergeSort` — **the permutation of a stable sort.**
* `getElem?_flatMap_pair` — the entries of a list flattened into pairs.
-/

namespace StableSort

variable {α β : Type*}

section Permutation

variable (le : α → α → Bool) (l : List α)

/-- The list sorted with every element's original position beside it. -/
def tagged : List (α × ℕ) := l.zipIdx.mergeSort (List.zipIdxLE le)

theorem length_tagged : (tagged le l).length = l.length := by simp [tagged]

theorem map_fst_tagged : (tagged le l).map Prod.fst = l.mergeSort le := List.mergeSort_zipIdx

/-- The tag of an entry is where the list has it. -/
theorem getElem?_of_mem_tagged {p : α × ℕ} (h : p ∈ tagged le l) : l[p.2]? = some p.1 := by
  rw [tagged, List.mem_mergeSort] at h
  exact List.mem_zipIdx_iff_getElem?.mp h

/-- Every position is used as a tag at most once. -/
theorem nodup_map_snd_tagged : ((tagged le l).map Prod.snd).Nodup := by
  have hperm : ((tagged le l).map Prod.snd).Perm (l.zipIdx.map Prod.snd) :=
    (List.mergeSort_perm _ _).map _
  rw [hperm.nodup_iff, List.zipIdx_map_snd]
  exact List.nodup_range'

variable {le l}

theorem pairwise_tagged (htrans : ∀ a b c, le a b → le b c → le a c)
    (htotal : ∀ a b, le a b || le b a) :
    (tagged le l).Pairwise fun p q => List.zipIdxLE le p q = true :=
  List.pairwise_mergeSort (List.zipIdxLE_trans htrans) (List.zipIdxLE_total htotal) _

theorem le_of_zipIdxLE {p q : α × ℕ} (h : List.zipIdxLE le p q = true) : le p.1 q.1 = true := by
  unfold List.zipIdxLE at h
  split at h
  · assumption
  · cases h

theorem snd_le_of_zipIdxLE {p q : α × ℕ} (h : List.zipIdxLE le p q = true)
    (hqp : le q.1 p.1 = true) : p.2 ≤ q.2 := by
  have hpq := le_of_zipIdxLE h
  rw [List.zipIdxLE, if_pos hpq, if_pos hqp] at h
  exact of_decide_eq_true h

variable (le l)

/-- Where the entry at a position of the sorted list comes from. -/
def source (i : Fin l.length) : Fin l.length :=
  ⟨((tagged le l).get (i.cast (length_tagged le l).symm)).2,
    (List.getElem?_eq_some_iff.mp (getElem?_of_mem_tagged le l (List.get_mem _ _))).1⟩

theorem source_injective : Function.Injective (source le l) := by
  intro i j h
  have hnodup := nodup_map_snd_tagged le l
  have htag : ((tagged le l).get (i.cast (length_tagged le l).symm)).2
      = ((tagged le l).get (j.cast (length_tagged le l).symm)).2 := by
    simpa [source] using h
  have hlen : l.length = ((tagged le l).map Prod.snd).length := by simp [length_tagged]
  have hij : i.cast hlen = j.cast hlen := hnodup.injective_get (by simpa using htag)
  simpa [Fin.ext_iff] using hij

variable {le l}

/-- The permutation of a stable sort by a total preorder on the whole type. -/
theorem exists_perm_mergeSort_of_total (htrans : ∀ a b c, le a b → le b c → le a c)
    (htotal : ∀ a b, le a b || le b a) :
    ∃ π : Equiv.Perm (Fin l.length),
      (∀ i : Fin l.length, (l.mergeSort le)[i.val]? = some (l.get (π i))) ∧
      (∀ i j, i < j → le (l.get (π i)) (l.get (π j)) = true) ∧
      (∀ i j, i < j → le (l.get (π j)) (l.get (π i)) = true → π i < π j) := by
  -- an injective map of a finite type into itself is a permutation
  let π : Equiv.Perm (Fin l.length) :=
    Equiv.ofBijective (source le l) (Finite.injective_iff_bijective.mp (source_injective le l))
  have hget : ∀ i : Fin l.length,
      l.get (π i) = ((tagged le l).get (i.cast (length_tagged le l).symm)).1 := by
    intro i
    have h := getElem?_of_mem_tagged le l
      (List.get_mem (tagged le l) (i.cast (length_tagged le l).symm))
    exact (List.getElem?_eq_some_iff.mp h).2
  have hle : ∀ i j : Fin l.length, i < j →
      List.zipIdxLE le ((tagged le l).get (i.cast (length_tagged le l).symm))
        ((tagged le l).get (j.cast (length_tagged le l).symm)) = true :=
    fun i j hij => List.pairwise_iff_get.mp (pairwise_tagged htrans htotal) _ _ hij
  refine ⟨π, ?_, ?_, ?_⟩
  · intro i
    have hi : i.val < (tagged le l).length := by rw [length_tagged]; exact i.isLt
    rw [← map_fst_tagged, List.getElem?_map, List.getElem?_eq_getElem hi, hget i]
    rfl
  · intro i j hij
    rw [hget i, hget j]
    exact le_of_zipIdxLE (hle i j hij)
  · intro i j hij hji
    rw [hget i, hget j] at hji
    have h : π i ≤ π j := snd_le_of_zipIdxLE (hle i j hij) hji
    -- equal images would mean equal positions
    exact lt_of_le_of_ne h fun heq => absurd (π.injective heq) (ne_of_lt hij)

variable (le l) in
open Classical in
/-- The comparison of the elements of a list, with everything else above them. -/
noncomputable def extendLE (a b : α) : Bool := decide (b ∉ l) || (decide (a ∈ l) && le a b)

theorem extendLE_of_mem {a b : α} (ha : a ∈ l) (hb : b ∈ l) : extendLE le l a b = le a b := by
  simp [extendLE, ha, hb]

theorem extendLE_iff {a b : α} :
    extendLE le l a b = true ↔ b ∈ l → a ∈ l ∧ le a b = true := by
  by_cases hb : b ∈ l <;> simp [extendLE, hb]

/-- **The permutation of a stable sort**: it lists the entries of the sorted list, it
makes the list nondecreasing, and where two elements are equivalent it keeps their
order.  The comparison need only be a total preorder on the elements of the list. -/
theorem exists_perm_mergeSort
    (htrans : ∀ a ∈ l, ∀ b ∈ l, ∀ c ∈ l, le a b → le b c → le a c)
    (htotal : ∀ a ∈ l, ∀ b ∈ l, le a b || le b a) :
    ∃ π : Equiv.Perm (Fin l.length),
      (∀ i : Fin l.length, (l.mergeSort le)[i.val]? = some (l.get (π i))) ∧
      (∀ i j, i < j → le (l.get (π i)) (l.get (π j)) = true) ∧
      (∀ i j, i < j → le (l.get (π j)) (l.get (π i)) = true → π i < π j) := by
  have hmem : ∀ a ∈ l, ∀ b ∈ l, extendLE le l a b = le a b :=
    fun a ha b hb => extendLE_of_mem ha hb
  have hsort : l.mergeSort (extendLE le l) = l.mergeSort le := by
    simpa using List.map_mergeSort (f := id) hmem
  have hextTrans : ∀ a b c, extendLE le l a b → extendLE le l b c → extendLE le l a c := by
    simp only [extendLE_iff]
    intro a b c hab hbc hc
    obtain ⟨hb, hbc⟩ := hbc hc
    obtain ⟨ha, hab⟩ := hab hb
    exact ⟨ha, htrans a ha b hb c hc hab hbc⟩
  have hextTotal : ∀ a b, extendLE le l a b || extendLE le l b a := by
    intro a b
    by_cases ha : a ∈ l
    · by_cases hb : b ∈ l
      · rw [hmem a ha b hb, hmem b hb a ha]
        exact htotal a ha b hb
      · simp [extendLE, hb]
    · simp [extendLE, ha]
  obtain ⟨π, hget, hsorted, hstable⟩ := exists_perm_mergeSort_of_total (l := l) hextTrans hextTotal
  refine ⟨π, ?_, ?_, ?_⟩
  · intro i
    rw [← hsort]
    exact hget i
  · intro i j hij
    rw [← hmem _ (List.get_mem l _) _ (List.get_mem l _)]
    exact hsorted i j hij
  · intro i j hij hji
    rw [← hmem _ (List.get_mem l _) _ (List.get_mem l _)] at hji
    exact hstable i j hij hji

end Permutation

/-! ### Two entries per element -/

theorem length_flatMap_pair (f g : α → β) (l : List α) :
    (l.flatMap fun a => [f a, g a]).length = 2 * l.length := by
  induction l with
  | nil => rfl
  | cons a l ih => simp only [List.flatMap_cons, List.length_append, ih, List.length_cons,
      List.length_nil]; omega

/-- The entries of a list flattened into pairs. -/
theorem getElem?_flatMap_pair (f g : α → β) : ∀ (l : List α) (i : ℕ),
    (l.flatMap fun a => [f a, g a])[2 * i]? = l[i]?.map f ∧
      (l.flatMap fun a => [f a, g a])[2 * i + 1]? = l[i]?.map g := by
  intro l
  induction l with
  | nil => intro i; simp
  | cons a l ih =>
    intro i
    cases i with
    | zero => simp
    | succ i =>
      have h2 : 2 * (i + 1) = 2 * i + 2 := by omega
      simpa [h2, List.flatMap_cons] using ih i

end StableSort
