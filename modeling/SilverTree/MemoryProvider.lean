import SilverTree.Leaves
import SilverTree.StableSort
import SilverTree.Viewer

/-!
# The content provider of the memory map

`DeviceTreeMemoryProvider` asks the library for the memory regions of its content
string, sorts them by address and shows two rows per region, its first and its last
address.  The library may throw while it compares two regions or computes the end of
one; the exception is printed and there are no rows.  The map is built on the first
query only: once the field `memoryProvider` is set, `getElements` falls through to the
empty array.

## Main definitions

* `DeviceTreeMemoryProvider` with `getElements` and `generateMemoryMap`.
* `memoryMap lib text` — the rows of a text, if the library can build them.
* `nthElements lib p n` — what the `n`-th query of a provider returns.
* `NoRows` — the memory map of a content string is empty or cannot be built.

## Main results

* `getElements_rows_of_regions` — **the rows of the first query**: two per region, in
  the order of a stable sort, or none if the end of some region cannot be computed.
* `rowsOfContent_eq_nil_iff` — when there are no rows.
* `getElements_getElements` — every further query returns no rows.
* `nthElements_eq_first_iff` — when a query returns the same rows as the first.
-/

namespace SilverTree

/-- A row of the table. -/
structure Address where
  address : String
  name : String
  deriving DecidableEq, Repr

/-- The provider: the content string, and the memory once it has been built. -/
structure DeviceTreeMemoryProvider where
  memoryProvider : Option DeviceTreeMemory
  content : Option Content

namespace DeviceTreeMemoryProvider

/-- The constructor. -/
def new (content : Option Content) : DeviceTreeMemoryProvider := ⟨none, content⟩

variable (lib : SilverLeaves)

/-- The exception of the first comparison of two of the regions that throws. -/
def comparisonFailure (regs : List MemoryMapReg) : Option JavaException :=
  regs.findSome? fun a => regs.findSome? fun b =>
    match lib.compareTo a b with
    | .ok _ => none
    | .error e => some e

/-- `a` is not above `b`. -/
def comparesLE (a b : MemoryMapReg) : Bool :=
  match lib.compareTo a b with
  | .ok n => decide (n ≤ 0)
  | .error _ => false

/-- `Arrays.sort` on regions: a stable sort by `compareTo`, which throws unless the regions
are mutually comparable.  Fewer than two regions are not compared at all.  Every one of
two or more takes part in a comparison, and `compareTo` throws for a region whatever the
other one is, so that a failure of any pair is met. -/
def sortRegs (regs : List MemoryMapReg) : Except JavaException (List MemoryMapReg) :=
  if regs.length < 2 then .ok regs
  else
    match comparisonFailure lib regs with
    | some e => .error e
    | none => .ok (regs.mergeSort (comparesLE lib))

/-- The loop over the sorted regions, `memRanges` being the rows added so far. -/
def addRanges (memRanges : List Address) : List MemoryMapReg → Except JavaException (List Address)
  | [] => .ok memRanges
  | r :: rest =>
    let memRanges := memRanges ++ [⟨r.address, r.name⟩]
    match lib.getEndAddress r with
    | .ok endAddress => addRanges (memRanges ++ [⟨endAddress, r.name⟩]) rest
    | .error e => .error e

/-- `generateMemoryMap()`. -/
def generateMemoryMap (memory : DeviceTreeMemory) : Except JavaException (List Address) :=
  match lib.getDeviceTreeMemoryMapRegRec memory with
  | .ok regs =>
    match sortRegs lib regs with
    | .ok sorted => addRanges lib [] sorted
    | .error e => .error e
  | .error e => .error e

/-- `getElements(inputElement)`.  An exception is printed; the memory, if it was built
before the exception, stays. -/
def getElements (p : DeviceTreeMemoryProvider) : List Address × DeviceTreeMemoryProvider :=
  match p.memoryProvider, p.content with
  | none, some c =>
    match lib.newDeviceTreeMemory c.text with
    | .ok memory =>
      match generateMemoryMap lib memory with
      | .ok rows => (rows, { p with memoryProvider := some memory })
      | .error _ => ([], { p with memoryProvider := some memory })
    | .error _ => ([], p)
  | _, _ => ([], p)

theorem getElements_content (p : DeviceTreeMemoryProvider) :
    (p.getElements lib).2.content = p.content := by
  unfold getElements
  split
  · split
    · split <;> rfl
    · rfl
  · rfl

/-- The provider as a class of content providers. -/
def providerClass : ProviderClass DeviceTreeMemoryProvider Address where
  new := new
  getElements := getElements lib
  content := content
  content_new _ := rfl
  content_getElements := getElements_content lib

end DeviceTreeMemoryProvider

open DeviceTreeMemoryProvider

section Query

variable (lib : SilverLeaves)

/-- The memory map of a text, if the library can build it. -/
def memoryMap (text : Text) : Except JavaException (List Address) :=
  match lib.newDeviceTreeMemory text with
  | .ok memory => generateMemoryMap lib memory
  | .error e => .error e

/-- The rows of a content string: none when it is null or the map cannot be built. -/
def rowsOfContent (c : Option Content) : List Address :=
  match c with
  | some c =>
    match memoryMap lib c.text with
    | .ok rows => rows
    | .error _ => []
  | none => []

/-- The first query returns the memory map of the content string. -/
theorem getElements_new (c : Option Content) :
    ((new c).getElements lib).1 = rowsOfContent lib c := by
  cases c with
  | none => rfl
  | some c =>
    simp only [getElements, new, rowsOfContent, memoryMap]
    cases lib.newDeviceTreeMemory c.text with
    | error e => rfl
    | ok memory =>
      dsimp only
      cases generateMemoryMap lib memory with
      | error e => rfl
      | ok rows => rfl

/-- **A provider that has been queried returns no rows.**  Either its memory is set,
or building it throws once more. -/
theorem getElements_getElements (p : DeviceTreeMemoryProvider) :
    ((p.getElements lib).2.getElements lib).1 = [] := by
  obtain ⟨memory, content⟩ := p
  cases memory with
  | some m => simp [getElements]
  | none =>
    cases content with
    | none => simp [getElements]
    | some c =>
      cases hm : lib.newDeviceTreeMemory c.text with
      | error e => simp [getElements, hm]
      | ok m => cases hg : generateMemoryMap lib m <;> simp [getElements, hm, hg]

/-- A provider after `n` queries. -/
def queried (p : DeviceTreeMemoryProvider) (n : ℕ) : DeviceTreeMemoryProvider :=
  (fun q => (getElements lib q).2)^[n] p

/-- What the `n`-th query returns, counted from one. -/
def nthElements (p : DeviceTreeMemoryProvider) (n : ℕ) : List Address :=
  ((queried lib p (n - 1)).getElements lib).1

theorem nthElements_add_two (p : DeviceTreeMemoryProvider) (n : ℕ) :
    nthElements lib p (n + 2) = [] := by
  have h : n + 2 - 1 = n + 1 := by omega
  rw [nthElements, h, queried, Function.iterate_succ_apply']
  exact getElements_getElements lib _

/-- A query returns the same rows as the first one exactly when it is the first one or
there are no rows at all. -/
theorem nthElements_eq_first_iff (c : Option Content) {n : ℕ} (hn : 1 ≤ n) :
    nthElements lib (new c) n = nthElements lib (new c) 1 ↔ n = 1 ∨ rowsOfContent lib c = [] := by
  have hfirst : nthElements lib (new c) 1 = rowsOfContent lib c := getElements_new lib c
  rw [hfirst]
  obtain rfl | ⟨m, rfl⟩ : n = 1 ∨ ∃ m, n = m + 2 := by
    rcases Nat.lt_or_ge n 2 with h | h
    · exact Or.inl (by omega)
    · exact Or.inr ⟨n - 2, by omega⟩
  · simp [hfirst]
  · have hne : m + 2 ≠ 1 := by omega
    rw [nthElements_add_two]
    simp only [hne, false_or]
    exact eq_comm

end Query

/-! ### The sort and the loop -/

section Rows

variable {lib : SilverLeaves}

theorem comparisonFailure_eq_none_iff (regs : List MemoryMapReg) :
    comparisonFailure lib regs = none ↔ lib.MutuallyComparable regs := by
  simp only [comparisonFailure, List.findSome?_eq_none_iff, SilverLeaves.MutuallyComparable]
  refine forall₂_congr fun a _ => forall₂_congr fun b _ => ?_
  cases lib.compareTo a b with
  | ok n => simp
  | error e => simp

theorem comparesLE_iff {a b : MemoryMapReg} {n : ℤ} (h : lib.compareTo a b = .ok n) :
    comparesLE lib a b = true ↔ n ≤ 0 := by
  rw [comparesLE, h, decide_eq_true_eq]

/-- The sort returns the regions in order, if it can compare them. -/
theorem sortRegs_ok {regs : List MemoryMapReg}
    (h : 2 ≤ regs.length → lib.MutuallyComparable regs) :
    sortRegs lib regs = .ok (regs.mergeSort (comparesLE lib)) := by
  unfold sortRegs
  split
  next hlen =>
    match regs, hlen with
    | [], _ => rw [List.mergeSort_nil]
    | [r], _ => rw [List.mergeSort_singleton]
  next hlen =>
    rw [(comparisonFailure_eq_none_iff regs).mpr (h (by omega))]

theorem sortRegs_error {regs : List MemoryMapReg} (hlen : 2 ≤ regs.length)
    (h : ¬ lib.MutuallyComparable regs) : ∃ e, sortRegs lib regs = .error e := by
  rw [← comparisonFailure_eq_none_iff] at h
  obtain ⟨e, he⟩ := Option.ne_none_iff_exists'.mp h
  have hge : ¬ regs.length < 2 := by omega
  exact ⟨e, by rw [sortRegs, if_neg hge, he]⟩

/-- The row of the start of a region. -/
def startRow (r : MemoryMapReg) : Address := ⟨r.address, r.name⟩

variable (lib) in
/-- The row of the end of a region that has one. -/
def endRow (r : MemoryMapReg) : Address :=
  match lib.getEndAddress r with
  | .ok endAddress => ⟨endAddress, r.name⟩
  | .error _ => startRow r

theorem endRow_ok {r : MemoryMapReg} {a : String} (h : lib.getEndAddress r = .ok a) :
    endRow lib r = ⟨a, r.name⟩ := by
  rw [endRow, h]

/-- The loop appends two rows per region. -/
theorem addRanges_ok {regs : List MemoryMapReg} (h : lib.HaveEndAddresses regs) :
    ∀ memRanges : List Address, addRanges lib memRanges regs
      = .ok (memRanges ++ regs.flatMap fun r => [startRow r, endRow lib r]) := by
  induction regs with
  | nil => intro memRanges; simp [addRanges]
  | cons r regs ih =>
    intro memRanges
    obtain ⟨a, ha⟩ := h r (List.mem_cons_self ..)
    have hrest : lib.HaveEndAddresses regs := fun r' hr' => h r' (List.mem_cons_of_mem r hr')
    rw [addRanges, ha]
    dsimp only
    rw [ih hrest, List.flatMap_cons, endRow_ok ha]
    simp [startRow]

/-- A region without an end address ends the loop. -/
theorem addRanges_error {regs : List MemoryMapReg} (h : ¬ lib.HaveEndAddresses regs) :
    ∀ memRanges : List Address, ∃ e, addRanges lib memRanges regs = .error e := by
  induction regs with
  | nil => exact absurd (fun r hr => absurd hr (List.not_mem_nil)) h
  | cons r regs ih =>
    intro memRanges
    rw [addRanges]
    cases ha : lib.getEndAddress r with
    | error e => exact ⟨e, rfl⟩
    | ok a =>
      refine ih (fun hrest => h fun r' hr' => ?_) _
      rcases List.mem_cons.mp hr' with rfl | hr'
      · exact ⟨a, ha⟩
      · exact hrest r' hr'

theorem SilverLeaves.haveEndAddresses_mergeSort_iff (regs : List MemoryMapReg)
    (le : MemoryMapReg → MemoryMapReg → Bool) :
    lib.HaveEndAddresses (regs.mergeSort le) ↔ lib.HaveEndAddresses regs := by
  simp only [SilverLeaves.HaveEndAddresses, List.mem_mergeSort]

/-! ### The rows of the first query -/

theorem rowsOfContent_of_regions {c : Content} {memory : DeviceTreeMemory}
    {regs : List MemoryMapReg} (hmem : lib.newDeviceTreeMemory c.text = .ok memory)
    (hregs : lib.getDeviceTreeMemoryMapRegRec memory = .ok regs)
    (hcmp : 2 ≤ regs.length → lib.MutuallyComparable regs) (hend : lib.HaveEndAddresses regs) :
    rowsOfContent lib (some c)
      = (regs.mergeSort (comparesLE lib)).flatMap fun r => [startRow r, endRow lib r] := by
  have hsorted := (SilverLeaves.haveEndAddresses_mergeSort_iff regs (comparesLE lib)).mpr hend
  simp [rowsOfContent, memoryMap, hmem, generateMemoryMap, hregs, sortRegs_ok hcmp,
    addRanges_ok hsorted]

/-- The sort that throws leaves no rows. -/
theorem rowsOfContent_of_incomparable {c : Content} {memory : DeviceTreeMemory}
    {regs : List MemoryMapReg} (hmem : lib.newDeviceTreeMemory c.text = .ok memory)
    (hregs : lib.getDeviceTreeMemoryMapRegRec memory = .ok regs) (hlen : 2 ≤ regs.length)
    (hcmp : ¬ lib.MutuallyComparable regs) : rowsOfContent lib (some c) = [] := by
  obtain ⟨e, he⟩ := sortRegs_error hlen hcmp
  simp [rowsOfContent, memoryMap, hmem, generateMemoryMap, hregs, he]

/-- The loop that throws leaves no rows, whichever region it throws at. -/
theorem rowsOfContent_of_no_end {c : Content} {memory : DeviceTreeMemory}
    {regs : List MemoryMapReg} (hmem : lib.newDeviceTreeMemory c.text = .ok memory)
    (hregs : lib.getDeviceTreeMemoryMapRegRec memory = .ok regs)
    (hend : ¬ lib.HaveEndAddresses regs) : rowsOfContent lib (some c) = [] := by
  by_cases hcmp : 2 ≤ regs.length → lib.MutuallyComparable regs
  · have hsorted : ¬ lib.HaveEndAddresses (regs.mergeSort (comparesLE lib)) := by
      rwa [SilverLeaves.haveEndAddresses_mergeSort_iff]
    obtain ⟨e, he⟩ := addRanges_error hsorted []
    simp [rowsOfContent, memoryMap, hmem, generateMemoryMap, hregs, sortRegs_ok hcmp, he]
  · rw [Classical.not_imp] at hcmp
    exact rowsOfContent_of_incomparable hmem hregs hcmp.1 hcmp.2

/-- A content string has an empty memory map or none: it is null, the library throws, it
finds no regions, it cannot compare two of them, or one of them has no end address. -/
def NoRows (lib : SilverLeaves) (c : Option Content) : Prop :=
  ∀ c', c = some c' → ∀ memory regs, lib.newDeviceTreeMemory c'.text = .ok memory →
    lib.getDeviceTreeMemoryMapRegRec memory = .ok regs →
      regs = [] ∨ (2 ≤ regs.length ∧ ¬ lib.MutuallyComparable regs) ∨ ¬ lib.HaveEndAddresses regs

/-- There are rows exactly when the library finds regions and can sort them and tell
where each one ends. -/
theorem rowsOfContent_eq_nil_iff (c : Option Content) :
    rowsOfContent lib c = [] ↔ NoRows lib c := by
  constructor
  · rintro h c' rfl memory regs hmem hregs
    by_contra hnot
    simp only [not_or, not_and, not_not] at hnot
    obtain ⟨hne, hcmp, hend⟩ := hnot
    rw [rowsOfContent_of_regions hmem hregs hcmp hend] at h
    have hlen := congrArg List.length h
    rw [StableSort.length_flatMap_pair, List.length_mergeSort, List.length_nil] at hlen
    exact hne (List.length_eq_zero_iff.mp (by omega))
  · intro h
    cases c with
    | none => rfl
    | some c =>
      cases hmem : lib.newDeviceTreeMemory c.text with
      | error e => simp [rowsOfContent, memoryMap, hmem]
      | ok memory =>
        cases hregs : lib.getDeviceTreeMemoryMapRegRec memory with
        | error e => simp [rowsOfContent, memoryMap, hmem, generateMemoryMap, hregs]
        | ok regs =>
          rcases h c rfl memory regs hmem hregs with rfl | ⟨hlen, hcmp⟩ | hend
          · simp [rowsOfContent, memoryMap, hmem, generateMemoryMap, hregs, sortRegs, addRanges]
          · exact rowsOfContent_of_incomparable hmem hregs hlen hcmp
          · exact rowsOfContent_of_no_end hmem hregs hend

/-! ### Regions that can be compared -/

theorem SilverLeaves.TotalPreorderOn.le_trans {regs : List MemoryMapReg}
    (h : lib.TotalPreorderOn regs) : ∀ a ∈ regs, ∀ b ∈ regs, ∀ c ∈ regs,
      comparesLE lib a b → comparesLE lib b c → comparesLE lib a c := by
  intro a ha b hb c hc hab hbc
  obtain ⟨l, hl⟩ := h.comparable a ha b hb
  obtain ⟨m, hm⟩ := h.comparable b hb c hc
  obtain ⟨n, hn⟩ := h.comparable a ha c hc
  rw [comparesLE_iff hl] at hab
  rw [comparesLE_iff hm] at hbc
  rw [comparesLE_iff hn]
  exact h.trans a ha b hb c hc l m n hl hm hn hab hbc

theorem SilverLeaves.TotalPreorderOn.le_total {regs : List MemoryMapReg}
    (h : lib.TotalPreorderOn regs) : ∀ a ∈ regs, ∀ b ∈ regs,
      comparesLE lib a b || comparesLE lib b a := by
  intro a ha b hb
  obtain ⟨m, hm⟩ := h.comparable a ha b hb
  obtain ⟨n, hn⟩ := h.comparable b hb a ha
  rw [Bool.or_eq_true, comparesLE_iff hm, comparesLE_iff hn]
  have hneg := h.neg_iff b hb a ha n m hn hm
  omega

/-- **The rows of the first query.**  For regions of any number, with ties and
duplicates, that all have an end address, there is a permutation that makes them
nondecreasing in `compareTo` and keeps equal regions in order, such that rows `2 i` and
`2 i + 1` are the start and the end of its `i`-th region, and there are no other rows.
Where one region has no end address there are no rows at all. -/
theorem getElements_rows_of_regions {c : Content} {memory : DeviceTreeMemory}
    {regs : List MemoryMapReg} (hcmp : lib.TotalPreorderOn regs)
    (hmem : lib.newDeviceTreeMemory c.text = .ok memory)
    (hregs : lib.getDeviceTreeMemoryMapRegRec memory = .ok regs) :
    ((∀ r ∈ regs, ∃ a, lib.getEndAddress r = .ok a) →
      ((new (some c)).getElements lib).1.length = 2 * regs.length ∧
      ∃ π : Equiv.Perm (Fin regs.length),
        (∀ i j, i < j → ∃ n, lib.compareTo (regs.get (π i)) (regs.get (π j)) = .ok n ∧ n ≤ 0) ∧
        (∀ i j, i < j → lib.compareTo (regs.get (π i)) (regs.get (π j)) = .ok 0 → π i < π j) ∧
        ∀ i : Fin regs.length,
          ((new (some c)).getElements lib).1[2 * i.val]?
            = some ⟨(regs.get (π i)).address, (regs.get (π i)).name⟩ ∧
          ∃ a, lib.getEndAddress (regs.get (π i)) = .ok a ∧
            ((new (some c)).getElements lib).1[2 * i.val + 1]?
              = some ⟨a, (regs.get (π i)).name⟩) ∧
    ((∃ r ∈ regs, ∃ e, lib.getEndAddress r = .error e) →
      ((new (some c)).getElements lib).1 = []) := by
  rw [getElements_new]
  constructor
  · intro hend
    rw [rowsOfContent_of_regions hmem hregs (fun _ => hcmp.comparable) hend]
    refine ⟨by rw [StableSort.length_flatMap_pair, List.length_mergeSort], ?_⟩
    obtain ⟨π, hget, hsorted, hstable⟩ :=
      StableSort.exists_perm_mergeSort (l := regs) hcmp.le_trans hcmp.le_total
    refine ⟨π, ?_, ?_, ?_⟩
    · intro i j hij
      obtain ⟨n, hn⟩ := hcmp.comparable _ (List.get_mem regs (π i)) _ (List.get_mem regs (π j))
      exact ⟨n, hn, (comparesLE_iff hn).mp (hsorted i j hij)⟩
    · intro i j hij h0
      -- an equal comparison is a comparison in both directions
      obtain ⟨n, hn⟩ := hcmp.comparable _ (List.get_mem regs (π j)) _ (List.get_mem regs (π i))
      have hneg := hcmp.neg_iff _ (List.get_mem regs (π i)) _ (List.get_mem regs (π j)) 0 n h0 hn
      exact hstable i j hij ((comparesLE_iff hn).mpr (by omega))
    · intro i
      obtain ⟨hstart, hendRow⟩ := StableSort.getElem?_flatMap_pair startRow (endRow lib)
        (regs.mergeSort (comparesLE lib)) i
      obtain ⟨a, ha⟩ := hend _ (List.get_mem regs (π i))
      rw [hstart, hendRow, hget i, Option.map_some, Option.map_some, endRow_ok ha]
      exact ⟨rfl, a, ha, rfl⟩
  · rintro ⟨r, hr, e, he⟩
    refine rowsOfContent_of_no_end hmem hregs fun hend => ?_
    obtain ⟨a, ha⟩ := hend r hr
    rw [he] at ha
    cases ha

/-- Three regions, two of them at the same address. -/
def sampleRegs : List MemoryMapReg :=
  [⟨"uart", "0x20", "0x8"⟩, ⟨"timer", "0x10", "0x8"⟩, ⟨"alias", "0x20", "0x4"⟩]

/-- The library on a text with the regions `regs`, all of them at `0x10` or at `0x20`, with
a length that is `0x4`, `0x8` or not a number. -/
def regsLibrary (regs : List MemoryMapReg) : SilverLeaves :=
  { attributeLibrary with
    getDeviceTreeMemoryMapRegRec := fun _ => .ok regs
    getEndAddress := fun r =>
      if r.length = "0x8" then .ok (if r.address = "0x10" then "0x17" else "0x27")
      else if r.length = "0x4" then .ok (if r.address = "0x10" then "0x13" else "0x23")
      else .error .numberFormat
    compareTo := fun a b => .ok
      (if a.address = b.address then 0 else if a.address = "0x10" then -1 else 1) }

theorem regsLibrary_totalPreorderOn {regs : List MemoryMapReg}
    (h : ∀ r ∈ regs, r.address = "0x10" ∨ r.address = "0x20") :
    (regsLibrary regs).TotalPreorderOn regs where
  comparable a _ b _ := ⟨_, rfl⟩
  neg_iff a ha b hb m n hm hn := by
    cases hm
    cases hn
    rcases h a ha with h1 | h1 <;> rcases h b hb with h2 | h2 <;> rw [h1, h2] <;> decide
  trans a ha b hb c hc l m n hl hm hn := by
    cases hl
    cases hm
    cases hn
    rcases h a ha with h1 | h1 <;> rcases h b hb with h2 | h2 <;> rcases h c hc with h3 | h3 <;>
      rw [h1, h2, h3] <;> decide

/-- A region whose length is not a number, as a size macro leaves it. -/
def unsizedReg : MemoryMapReg := ⟨"uart", "0x20", "0xSZ"⟩

/-- The rows of `sampleRegs`: six of them, for an order of the regions in which equal
ones keep their places.  With a region of unknown size beside them there are none. -/
theorem getElements_rows_sampleRegs :
    (((new (some (contentOn ⟨"/p", "x.dts"⟩ []))).getElements
        (regsLibrary sampleRegs)).1.length = 6 ∧
      ∃ π : Equiv.Perm (Fin 3),
        (∀ i j, i < j → ∃ n, (regsLibrary sampleRegs).compareTo (sampleRegs.get (π i))
          (sampleRegs.get (π j)) = .ok n ∧ n ≤ 0) ∧
        (∀ i j, i < j → (regsLibrary sampleRegs).compareTo (sampleRegs.get (π i))
          (sampleRegs.get (π j)) = .ok 0 → π i < π j) ∧
        ∀ i : Fin 3,
          ((new (some (contentOn ⟨"/p", "x.dts"⟩ []))).getElements
              (regsLibrary sampleRegs)).1[2 * i.val]?
            = some ⟨(sampleRegs.get (π i)).address, (sampleRegs.get (π i)).name⟩ ∧
          ∃ a, (regsLibrary sampleRegs).getEndAddress (sampleRegs.get (π i)) = .ok a ∧
            ((new (some (contentOn ⟨"/p", "x.dts"⟩ []))).getElements
                (regsLibrary sampleRegs)).1[2 * i.val + 1]?
              = some ⟨a, (sampleRegs.get (π i)).name⟩) ∧
    ((new (some (contentOn ⟨"/p", "x.dts"⟩ []))).getElements
      (regsLibrary (unsizedReg :: sampleRegs))).1 = [] := by
  constructor
  · refine (getElements_rows_of_regions (regsLibrary_totalPreorderOn (by decide)) rfl rfl).1 ?_
    intro r hr
    simp only [sampleRegs, List.mem_cons, List.not_mem_nil, or_false] at hr
    rcases hr with rfl | rfl | rfl <;> exact ⟨_, rfl⟩
  · exact (getElements_rows_of_regions (regsLibrary_totalPreorderOn (by decide)) rfl rfl).2
      ⟨unsizedReg, List.mem_cons_self .., .numberFormat, rfl⟩

/-- One region whose end address cannot be computed costs the table every row. -/
theorem getElements_rows_unsizedReg :
    ¬ ∀ (lib : SilverLeaves) (c : Content) (memory : DeviceTreeMemory) (regs : List MemoryMapReg),
      lib.TotalPreorderOn regs → lib.newDeviceTreeMemory c.text = .ok memory →
      lib.getDeviceTreeMemoryMapRegRec memory = .ok regs →
        ((new (some c)).getElements lib).1.length = 2 * regs.length := by
  intro h
  have hlen := h (regsLibrary [unsizedReg]) (contentOn ⟨"/p", "x.dts"⟩ []) _ [unsizedReg]
    (regsLibrary_totalPreorderOn (by decide)) rfl rfl
  have hrows : ((new (some (contentOn ⟨"/p", "x.dts"⟩ []))).getElements
      (regsLibrary [unsizedReg])).1 = [] := rfl
  rw [hrows] at hlen
  cases hlen

end Rows

end SilverTree
