import SilverTree.Leaves
import SilverTree.LineTable

/-!
# The damager of the editor

After a change of the document, the editor asks its damager which region of a partition
has to be presented again.  `NonRuleBasedDamagerRepairer` answers with whole lines, from
the line of the change to the line its inserted text ends in, cut to the partition; when
a line cannot be found, and when the partitioning has changed, with the partition.

The lookups of a document are those of its line table; `none` is a
`BadLocationException`.  The offset after an event without a text can lie outside the
document, and in Java even wrap around to a negative one.  Either way no line is found.

## Main definitions

* `getLineOfOffset`, `getLineInformation`, `getLineInformationOfOffset` — the lookups.
* `DocumentEvent`, `TypedRegion` — a change already applied to the document, and a
  partition of it.
* `endOfLineOf`, `getDamageRegion` — the damager.

## Main results

* `endOfLineOf_spec` — the line end after an offset.
* `getDamageRegion_damages` — **the damaged region lies in the partition, contains the
  inserted text and is made of lines.**
-/

namespace SilverTree

open LineTable (Line)

namespace NonRuleBasedDamagerRepairer

/-! ### The document -/

/-- The lines of a document. -/
def documentLines (text : Text) : List Line := LineTable.lines 13 10 text

/-- `IDocument.getLineOfOffset`. -/
def getLineOfOffset (text : Text) (offset : ℕ) : Option ℕ :=
  LineTable.lineOfOffset (documentLines text) offset

/-- `IDocument.getLineInformation`. -/
def getLineInformation (text : Text) (line : ℕ) : Option Line := (documentLines text)[line]?

/-- `IDocument.getLineInformationOfOffset`. -/
def getLineInformationOfOffset (text : Text) (offset : ℕ) : Option Line :=
  (getLineOfOffset text offset).bind (getLineInformation text)

/-- A change that has been applied to the document: the text that was inserted, if the
event has one, is in it. -/
structure DocumentEvent (text : Text) where
  offset : ℕ
  length : ℕ
  inserted : Option Text
  offset_le : offset ≤ text.length
  applied : ∀ s, inserted = some s → slice text offset s.length = s

/-- A partition of the document. -/
structure TypedRegion (text : Text) where
  offset : ℕ
  length : ℕ
  inDocument : offset + length ≤ text.length

/-- A region, as the damager returns it. -/
structure Region where
  offset : ℤ
  length : ℤ
  deriving DecidableEq, Repr

/-- The partition as a region. -/
def TypedRegion.region {text : Text} (partition : TypedRegion text) : Region :=
  ⟨partition.offset, partition.length⟩

/-! ### The damager -/

/-- `endOfLineOf`. -/
def endOfLineOf (text : Text) (offset : ℕ) : Option ℕ := do
  let info ← getLineInformationOfOffset text offset
  if offset ≤ info.offset + info.length then
    some (info.offset + info.length)
  else
    let line ← getLineOfOffset text offset
    -- this exception is caught here
    match getLineInformation text (line + 1) with
    | some info => some (info.offset + info.length)
    | none => some text.length

/-- The lines that `getDamageRegion` looks up. -/
def damagedLines (text : Text) (partition : TypedRegion text) (event : DocumentEvent text) :
    Option Region := do
  let info ← getLineInformationOfOffset text event.offset
  let start := max partition.offset info.offset
  let stop := event.offset + (match event.inserted with
    | none => event.length
    | some s => s.length)
  let stop ←
    -- optimize the case of the same line
    if info.offset ≤ stop ∧ stop ≤ info.offset + info.length then
      some (info.offset + info.length)
    else endOfLineOf text stop
  let stop := min (partition.offset + partition.length) stop
  some ⟨start, (stop : ℤ) - start⟩

/-- `getDamageRegion`. -/
def getDamageRegion (text : Text) (partition : TypedRegion text) (event : DocumentEvent text)
    (documentPartitioningChanged : Bool) : Region :=
  if documentPartitioningChanged then partition.region
  else
    match damagedLines text partition event with
    | some region => region
    | none => partition.region

/-! ### The lookups -/

/-- Every offset of the document is in a line, its text or its delimiter; inside a
delimiter the next line follows. -/
theorem getLineOfOffset_spec {text : Text} {offset : ℕ} (h : offset ≤ text.length) :
    ∃ k line, getLineOfOffset text offset = some k ∧
      getLineInformationOfOffset text offset = some line ∧ line ∈ documentLines text ∧
      line.offset ≤ offset ∧
      (line.end < offset → ∃ line', getLineInformation text (k + 1) = some line' ∧
        line' ∈ documentLines text ∧ offset < line'.offset) := by
  obtain ⟨k, line, hk, hline, hle, hdelim⟩ :=
    LineTable.lineOfOffset_spec (LineTable.lines_laid 13 10 text) (Nat.zero_le offset) h
  refine ⟨k, line, hk, ?_, List.mem_of_getElem? hline, hle, fun hlt => ?_⟩
  · rw [getLineInformationOfOffset, getLineOfOffset, documentLines, hk]
    exact hline
  · obtain ⟨hnext, line', hline', hoff⟩ := hdelim hlt
    exact ⟨line', hline', List.mem_of_getElem? hline', by omega⟩

/-- Outside the document there is no line. -/
theorem getLineOfOffset_outside {text : Text} {offset : ℕ} (h : text.length < offset) :
    getLineOfOffset text offset = none :=
  LineTable.lineOfOffset_eq_none (LineTable.lines_laid 13 10 text) h

theorem endOfLineOf_outside {text : Text} {offset : ℕ} (h : text.length < offset) :
    endOfLineOf text offset = none := by
  simp [endOfLineOf, getLineInformationOfOffset, getLineOfOffset_outside h]

/-- **The line end after an offset** is the end of a line, and not before the offset.  The
end of the document is never the answer: a delimiter is always followed by a line. -/
theorem endOfLineOf_spec {text : Text} {offset : ℕ} (h : offset ≤ text.length) :
    ∃ stop, endOfLineOf text offset = some stop ∧ offset ≤ stop ∧
      ∃ line ∈ documentLines text, stop = line.end := by
  obtain ⟨k, line, hk, hline, hmem, hle, hdelim⟩ := getLineOfOffset_spec h
  rcases Nat.lt_or_ge line.end offset with hlt | hge
  · -- inside the delimiter, the next line is looked up
    obtain ⟨line', hline', hmem', hoff⟩ := hdelim hlt
    have hnot : ¬ offset ≤ line.offset + line.length := by
      rw [Line.end] at hlt
      omega
    refine ⟨line'.end, ?_, ?_, line', hmem', rfl⟩
    · simp [endOfLineOf, hline, hnot, hk, hline', Line.end]
    · rw [Line.end]
      omega
  · have hin : offset ≤ line.offset + line.length := hge
    refine ⟨line.end, ?_, hge, line, hmem, rfl⟩
    simp [endOfLineOf, hline, hin, Line.end]

/-! ### The damaged region -/

/-- What a damager owes the editor: a region in the partition that contains the inserted
text, and that consists of whole lines of the partition unless it is the partition. -/
structure Damages (text : Text) (partition : TypedRegion text) (event : DocumentEvent text)
    (region : Region) : Prop where
  nonneg : 0 ≤ region.length
  start_le : (partition.offset : ℤ) ≤ region.offset
  le_end : region.offset + region.length ≤ (partition.offset : ℤ) + partition.length
  inserted : ∀ s, event.inserted = some s → ∀ q : ℕ,
    event.offset ≤ q → q < event.offset + s.length →
    partition.offset ≤ q → q < partition.offset + partition.length →
    region.offset ≤ q ∧ (q : ℤ) < region.offset + region.length
  starts : region ≠ partition.region → region.offset = partition.offset ∨
    ∃ line, getLineInformationOfOffset text event.offset = some line ∧ region.offset = line.offset
  ends : region ≠ partition.region →
    region.offset + region.length = (partition.offset : ℤ) + partition.length ∨
      region.offset + region.length = text.length ∨
      ∃ line ∈ documentLines text, region.offset + region.length = line.end

/-- The partition itself is always right. -/
theorem damages_partition {text : Text} (partition : TypedRegion text)
    (event : DocumentEvent text) : Damages text partition event partition.region := by
  refine ⟨?_, ?_, ?_, ?_, fun h => absurd rfl h, fun h => absurd rfl h⟩
  · simp [TypedRegion.region]
  · simp [TypedRegion.region]
  · simp [TypedRegion.region]
  · intro s _ q _ _ hstart hend
    simp only [TypedRegion.region]
    omega

/-- Where the text of an event ends. -/
def DocumentEvent.stop {text : Text} (event : DocumentEvent text) : ℕ :=
  event.offset + (match event.inserted with
    | none => event.length
    | some s => s.length)

/-- The lines from that of the event to a line end after it, cut to the partition, are
damaged. -/
theorem damages_lines {text : Text} {partition : TypedRegion text} {event : DocumentEvent text}
    (hstart : partition.offset ≤ event.offset)
    (hend : event.offset ≤ partition.offset + partition.length) {info line : Line}
    (hinfo : getLineInformationOfOffset text event.offset = some info)
    (hle : info.offset ≤ event.offset) (hline : line ∈ documentLines text)
    (hstop : event.stop ≤ line.end) :
    Damages text partition event
      ⟨(max partition.offset info.offset : ℕ),
        (min (partition.offset + partition.length) line.end : ℕ)
          - ((max partition.offset info.offset : ℕ) : ℤ)⟩ := by
  have hoff : event.offset ≤ event.stop := Nat.le_add_right _ _
  refine ⟨?_, ?_, ?_, ?_, fun _ => ?_, fun _ => ?_⟩
  · dsimp only
    omega
  · dsimp only
    omega
  · dsimp only
    omega
  · intro s hs q hq hq' hp hp'
    have hlen : event.stop = event.offset + s.length := by simp [DocumentEvent.stop, hs]
    dsimp only
    omega
  · rcases Nat.le_total info.offset partition.offset with h | h
    · exact Or.inl (by simp [h])
    · exact Or.inr ⟨info, hinfo, by simp [h]⟩
  · rcases Nat.le_total (partition.offset + partition.length) line.end with h | h
    · exact Or.inl (by dsimp only; omega)
    · exact Or.inr (Or.inr ⟨line, hline, by dsimp only; omega⟩)

/-- What the damager looks up, with the line of the event. -/
theorem damagedLines_eq {text : Text} (partition : TypedRegion text) {event : DocumentEvent text}
    {info : Line} (hinfo : getLineInformationOfOffset text event.offset = some info) :
    damagedLines text partition event =
      (if info.offset ≤ event.stop ∧ event.stop ≤ info.end then some info.end
        else endOfLineOf text event.stop).map fun stop =>
          ⟨(max partition.offset info.offset : ℕ),
            (min (partition.offset + partition.length) stop : ℕ)
              - ((max partition.offset info.offset : ℕ) : ℤ)⟩ := by
  rw [damagedLines, hinfo]
  by_cases hsame : info.offset ≤ event.stop ∧ event.stop ≤ info.end
  · rw [if_pos hsame]
    exact if_pos hsame
  · rw [if_neg hsame, Option.map_eq_bind]
    exact if_neg hsame

/-- **The damaged region** is inside the partition, contains what was inserted there, and
consists of lines. -/
theorem getDamageRegion_damages (text : Text) (partition : TypedRegion text)
    (event : DocumentEvent text) (documentPartitioningChanged : Bool)
    (hstart : partition.offset ≤ event.offset)
    (hend : event.offset ≤ partition.offset + partition.length) :
    Damages text partition event
      (getDamageRegion text partition event documentPartitioningChanged) := by
  cases documentPartitioningChanged with
  | true => exact damages_partition partition event
  | false =>
    obtain ⟨k, info, -, hinfo, hmem, hle, -⟩ := getLineOfOffset_spec event.offset_le
    have hlines := damagedLines_eq partition hinfo
    by_cases hsame : info.offset ≤ event.stop ∧ event.stop ≤ info.end
    · rw [if_pos hsame, Option.map_some] at hlines
      rw [getDamageRegion, hlines]
      exact damages_lines hstart hend hinfo hle hmem hsame.2
    · rw [if_neg hsame] at hlines
      rcases Nat.lt_or_ge text.length event.stop with hlt | hge
      · -- only an event without a text can end outside the document
        rw [endOfLineOf_outside hlt, Option.map_none] at hlines
        rw [getDamageRegion, hlines]
        exact damages_partition partition event
      · obtain ⟨stop, hstop, hlestop, line, hline, rfl⟩ := endOfLineOf_spec hge
        rw [hstop, Option.map_some] at hlines
        rw [getDamageRegion, hlines]
        exact damages_lines hstart hend hinfo hle hline hlestop

/-- The text `a`, CR, LF, `b`, LF with the `b` just inserted, in a partition that starts
inside the first delimiter. -/
def insertedB : DocumentEvent [97, 13, 10, 98, 10] where
  offset := 3
  length := 0
  inserted := some [98]
  offset_le := by decide
  applied := by
    intro s hs
    cases hs
    rfl

def fromDelimiter : TypedRegion [97, 13, 10, 98, 10] := ⟨2, 3, by decide⟩

theorem getDamageRegion_insertedB :
    getDamageRegion [97, 13, 10, 98, 10] fromDelimiter insertedB false = ⟨3, 1⟩ ∧
      Damages [97, 13, 10, 98, 10] fromDelimiter insertedB
        (getDamageRegion [97, 13, 10, 98, 10] fromDelimiter insertedB false) :=
  ⟨by decide, getDamageRegion_damages _ fromDelimiter insertedB false (by decide) (by decide)⟩

end NonRuleBasedDamagerRepairer

end SilverTree
