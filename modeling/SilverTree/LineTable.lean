import Mathlib.Algebra.Order.Group.Nat

/-!
# Line tables

A text is divided into lines by its line delimiters, a carriage return, a line feed, or
one right after the other.  The table of the lines and the lookups in it are given here
for texts over any type of characters.

The last line of a table has no delimiter.  It is empty when the text ends with a
delimiter.

## Main definitions

* `Line`, `lines` — the lines of a text.
* `Laid start stop table` — the lines of the table cover the offsets from `start` to
  `stop` without a gap.
* `lineOfOffset` — the line that an offset is in, its delimiter included.

## Main results

* `lines_laid` — **the lines of a text cover it.**
* `lineOfOffset_spec` — **every offset is in the line that is looked up**, and an offset
  inside a delimiter has a next line.
-/

namespace LineTable

/-- A line: where it starts, and the lengths of its text and of its delimiter. -/
structure Line where
  offset : ℕ
  length : ℕ
  delimiter : ℕ
  deriving DecidableEq, Repr

/-- Where the text of a line ends. -/
def Line.end (l : Line) : ℕ := l.offset + l.length

/-- Where the next line starts. -/
def Line.next (l : Line) : ℕ := l.end + l.delimiter

section Lines

variable {α : Type*} [DecidableEq α] (cr lf : α)

/-- The lines of a text, of which the first one starts at `offset` and has `length`
characters already, with a carriage return after them if `afterCr`. -/
def linesFrom : ℕ → ℕ → Bool → List α → List Line
  | offset, length, false, [] => [⟨offset, length, 0⟩]
  | offset, length, true, [] => [⟨offset, length, 1⟩, ⟨offset + length + 1, 0, 0⟩]
  | offset, length, false, c :: rest =>
    if c = cr then linesFrom offset length true rest
    else if c = lf then ⟨offset, length, 1⟩ :: linesFrom (offset + length + 1) 0 false rest
    else linesFrom offset (length + 1) false rest
  | offset, length, true, c :: rest =>
    if c = lf then ⟨offset, length, 2⟩ :: linesFrom (offset + length + 2) 0 false rest
    else if c = cr then ⟨offset, length, 1⟩ :: linesFrom (offset + length + 1) 0 true rest
    else ⟨offset, length, 1⟩ :: linesFrom (offset + length + 1) 1 false rest

/-- The lines of a text. -/
def lines (text : List α) : List Line := linesFrom cr lf 0 0 false text

end Lines

/-- The lines cover the offsets from `start` to `stop`; only the last one has no
delimiter. -/
def Laid (start stop : ℕ) : List Line → Prop
  | [] => False
  | [l] => l.offset = start ∧ l.delimiter = 0 ∧ l.end = stop
  | l :: l' :: rest => l.offset = start ∧ 0 < l.delimiter ∧ Laid l.next stop (l' :: rest)

theorem Laid.ne_nil {start stop : ℕ} {table : List Line} (h : Laid start stop table) :
    table ≠ [] := by
  intro hnil
  rw [hnil] at h
  exact h

/-- A line with a delimiter goes before the lines that start after it. -/
theorem Laid.cons {stop offset length delimiter : ℕ} {table : List Line} (hdelim : 0 < delimiter)
    (h : Laid (offset + length + delimiter) stop table) :
    Laid offset stop (⟨offset, length, delimiter⟩ :: table) := by
  cases table with
  | nil => exact absurd rfl h.ne_nil
  | cons l' rest => exact ⟨rfl, hdelim, h⟩

section Lines

variable {α : Type*} [DecidableEq α] (cr lf : α)

theorem linesFrom_laid : ∀ (text : List α) (offset length : ℕ) (afterCr : Bool),
    Laid offset (offset + length + afterCr.toNat + text.length)
      (linesFrom cr lf offset length afterCr text) := by
  intro text
  induction text with
  | nil =>
    intro offset length afterCr
    cases afterCr with
    | false => exact ⟨rfl, rfl, rfl⟩
    | true => exact ⟨rfl, Nat.one_pos, rfl, rfl, rfl⟩
  | cons c rest ih =>
    intro offset length afterCr
    -- every case moves one character on, and the end of the text stays where it is
    have hstep : ∀ offset' length' afterCr', offset' + length' + afterCr'.toNat
          = offset + length + afterCr.toNat + 1 →
        Laid offset' (offset + length + afterCr.toNat + (c :: rest).length)
          (linesFrom cr lf offset' length' afterCr' rest) := by
      intro offset' length' afterCr' heq
      have h := ih offset' length' afterCr'
      rw [heq] at h
      rwa [List.length_cons, Nat.add_comm rest.length 1, ← Nat.add_assoc]
    cases afterCr with
    | false =>
      rw [linesFrom]
      split
      · exact hstep offset length true rfl
      · split
        · exact Laid.cons Nat.one_pos (hstep (offset + length + 1) 0 false rfl)
        · exact hstep offset (length + 1) false (by simp; omega)
    | true =>
      rw [linesFrom]
      split
      · exact Laid.cons Nat.two_pos (hstep (offset + length + 2) 0 false rfl)
      · split
        · exact Laid.cons Nat.one_pos (hstep (offset + length + 1) 0 true rfl)
        · exact Laid.cons Nat.one_pos (hstep (offset + length + 1) 1 false rfl)

/-- **The lines of a text cover it.** -/
theorem lines_laid (text : List α) : Laid 0 text.length (lines cr lf text) := by
  have h := linesFrom_laid cr lf text 0 0 false
  rwa [Bool.toNat_false, Nat.add_zero, Nat.zero_add] at h

end Lines

/-! ### Looking up an offset -/

/-- The number of the line that an offset is in: the first one whose text or delimiter
reaches past it, or the last one when the offset is its end. -/
def lineOfOffset : List Line → ℕ → Option ℕ
  | [], _ => none
  | [l], offset => if offset ≤ l.next then some 0 else none
  | l :: l' :: rest, offset =>
    if offset < l.next then some 0 else (lineOfOffset (l' :: rest) offset).map (· + 1)

theorem Laid.start_le_stop {stop : ℕ} : ∀ {table : List Line} {start : ℕ},
    Laid start stop table → start ≤ stop := by
  intro table
  induction table with
  | nil => exact fun h => absurd h id
  | cons l rest ih =>
    intro start h
    cases rest with
    | nil =>
      obtain ⟨hoffset, -, hend⟩ := h
      rw [← hend, Line.end]
      omega
    | cons l' rest =>
      obtain ⟨hoffset, -, hrest⟩ := h
      have hle := ih hrest
      rw [Line.next, Line.end] at hle
      omega

/-- **The line an offset is looked up in** starts at or before it and reaches it.  An
offset past the text of the line is inside the delimiter, and there is a next line. -/
theorem lineOfOffset_spec {stop : ℕ} : ∀ {table : List Line} {start offset : ℕ},
    Laid start stop table → start ≤ offset → offset ≤ stop →
      ∃ k l, lineOfOffset table offset = some k ∧ table[k]? = some l ∧ l.offset ≤ offset ∧
        (l.end < offset →
          offset < l.next ∧ ∃ l', table[k + 1]? = some l' ∧ l'.offset = l.next) := by
  intro table
  induction table with
  | nil => exact fun h => absurd h id
  | cons l rest ih =>
    intro start offset h hstart hstop
    cases rest with
    | nil =>
      obtain ⟨hoffset, hdelim, hend⟩ := h
      have hle : offset ≤ l.next := by
        rw [Line.next]
        omega
      refine ⟨0, l, by simp [lineOfOffset, hle], rfl, by omega, fun hlt => ?_⟩
      omega
    | cons l' rest =>
      obtain ⟨hoffset, hdelim, hrest⟩ := h
      rcases Nat.lt_or_ge offset l.next with hlt | hge
      · -- past the end of its text the offset is in the delimiter of the first line
        refine ⟨0, l, by simp [lineOfOffset, hlt], rfl, by omega, fun _ => ⟨hlt, l', rfl, ?_⟩⟩
        cases rest with
        | nil => exact hrest.1
        | cons l'' rest => exact hrest.1
      · obtain ⟨k, m, hk, hm, hle, hdel⟩ := ih hrest hge hstop
        have hnot : ¬ offset < l.next := by omega
        refine ⟨k + 1, m, by simp [lineOfOffset, hnot, hk], hm, hle, fun hlt => ?_⟩
        obtain ⟨hnext, m', hm', hoff⟩ := hdel hlt
        exact ⟨hnext, m', hm', hoff⟩

/-- Outside the table nothing is found. -/
theorem lineOfOffset_eq_none {stop : ℕ} : ∀ {table : List Line} {start offset : ℕ},
    Laid start stop table → stop < offset → lineOfOffset table offset = none := by
  intro table
  induction table with
  | nil => exact fun h => absurd h id
  | cons l rest ih =>
    intro start offset h hstop
    cases rest with
    | nil =>
      obtain ⟨-, hdelim, hend⟩ := h
      have hnot : ¬ offset ≤ l.next := by
        rw [Line.next]
        omega
      simp [lineOfOffset, hnot]
    | cons l' rest =>
      obtain ⟨-, -, hrest⟩ := h
      have hle := hrest.start_le_stop
      have hnot : ¬ offset < l.next := by omega
      simp [lineOfOffset, hnot, ih hrest hstop]

end LineTable
