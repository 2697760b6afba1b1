import SilverTree.Damager
import SilverTree.EditorColors
import SilverTree.Run

/-!
# The repairer of the editor

Comments are presented in one colour.  After a change inside a comment the editor asks the
damager for the damaged region and lets the repairer put a style range over it; what is
not damaged keeps its style and moves with the text.  Typed text comes with whatever style
the text widget gives it.  This is enough for a comment to stay in its colour, over any
sequence of changes.

## Main definitions

* `addRange`, `createPresentation` — the repairer, and `StyleRange` — what it adds.
* `Comment` — a document with a comment in it and the styles of its characters.
* `Change`, `Comment.change` — a change inside the comment, and what the editor does about
  it.
* `Comment.Styled` — every character of the comment has the attribute of the repairer.

## Main results

* `getDamageRegion_covers` — what was typed is damaged.
* `comment_stays_styled` — **a comment stays styled** after any sequence of changes.
-/

namespace SilverTree

namespace NonRuleBasedDamagerRepairer

/-! ### The repairer -/

/-- A style range of a presentation. -/
structure StyleRange where
  offset : ℤ
  length : ℤ
  attr : TextAttribute
  deriving DecidableEq

/-- A `TextPresentation`. -/
abbrev TextPresentation := List StyleRange

/-- `addRange`. -/
def addRange (presentation : TextPresentation) (offset length : ℤ) (attr : Option TextAttribute) :
    TextPresentation :=
  match attr with
  | some attr => presentation ++ [⟨offset, length, attr⟩]
  | none => presentation

/-- `createPresentation`. -/
def createPresentation (fDefaultTextAttribute : TextAttribute) (presentation : TextPresentation)
    (region : Region) : TextPresentation :=
  addRange presentation region.offset region.length (some fDefaultTextAttribute)

/-- The styles of the characters of a text widget. -/
abbrev Styles := ℕ → Option TextAttribute

/-- A presentation is applied to a text widget: later ranges win. -/
def applyPresentation (styles : Styles) (presentation : TextPresentation) : Styles :=
  fun q => presentation.foldl (fun style range =>
    if range.offset ≤ (q : ℤ) ∧ (q : ℤ) < range.offset + range.length then some range.attr
    else style) (styles q)

/-- A region that is repaired gets the attribute, everything else stays. -/
theorem applyPresentation_createPresentation (styles : Styles) (attr : TextAttribute)
    (region : Region) (q : ℕ) :
    applyPresentation styles (createPresentation attr [] region) q =
      if region.offset ≤ (q : ℤ) ∧ (q : ℤ) < region.offset + region.length then some attr
      else styles q := rfl

/-! ### Changes inside a comment -/

/-- A document with a comment in it. -/
structure Comment where
  text : Text
  offset : ℕ
  length : ℕ
  inDocument : offset + length ≤ text.length
  styles : Styles

/-- A change inside a comment: a part of it is replaced.  `typed` are the styles the widget
gives to the new text, and `changed` the comment around the place after the change if it
has changed the partitioning of the document. -/
structure Change where
  offset : ℕ
  length : ℕ
  inserted : Text
  typed : Styles
  changed : Option (ℕ × ℕ)

/-- The text after a change. -/
def Change.applyTo (ch : Change) (text : Text) : Text :=
  text.take ch.offset ++ ch.inserted ++ text.drop (ch.offset + ch.length)

/-- The styles after a change: what comes after the change moves with the text. -/
def Change.move (ch : Change) (styles : Styles) : Styles := fun q =>
  if q < ch.offset then styles q
  else if q < ch.offset + ch.inserted.length then ch.typed q
  else styles (q - ch.inserted.length + ch.length)

/-- The comment after a change. -/
def Change.comment (ch : Change) (c : Comment) : ℕ × ℕ :=
  ch.changed.getD (c.offset, c.length - ch.length + ch.inserted.length)

/-- The change is inside the comment, and the comment after it is inside the document. -/
structure Change.Inside (ch : Change) (c : Comment) : Prop where
  start_le : c.offset ≤ ch.offset
  le_end : ch.offset + ch.length ≤ c.offset + c.length
  inDocument : (ch.comment c).1 + (ch.comment c).2 ≤ (ch.applyTo c.text).length

instance (ch : Change) (c : Comment) : Decidable (ch.Inside c) :=
  decidable_of_iff (c.offset ≤ ch.offset ∧ ch.offset + ch.length ≤ c.offset + c.length ∧
    (ch.comment c).1 + (ch.comment c).2 ≤ (ch.applyTo c.text).length)
    ⟨fun h => ⟨h.1, h.2.1, h.2.2⟩, fun h => ⟨h.start_le, h.le_end, h.inDocument⟩⟩

theorem Change.length_applyTo {ch : Change} {c : Comment} (h : ch.Inside c) :
    (ch.applyTo c.text).length = c.text.length - ch.length + ch.inserted.length := by
  have hle := h.le_end
  have hin := c.inDocument
  simp only [applyTo, List.length_append, List.length_take, List.length_drop]
  omega

/-- The event the document sends. -/
def Change.event (ch : Change) (c : Comment) (h : ch.Inside c) :
    DocumentEvent (ch.applyTo c.text) where
  offset := ch.offset
  length := ch.length
  inserted := some ch.inserted
  offset_le := by
    have hlen := Change.length_applyTo h
    have hle := h.le_end
    have hin := c.inDocument
    omega
  applied := by
    intro s hs
    cases hs
    have hle := h.le_end
    have hin := c.inDocument
    have htake : (c.text.take ch.offset).length = ch.offset := by
      rw [List.length_take]
      omega
    rw [applyTo, slice, List.append_assoc, List.drop_left' htake, List.take_left' rfl]

/-- The partition that the damager is asked about. -/
def Change.partition (ch : Change) (c : Comment) (h : ch.Inside c) :
    TypedRegion (ch.applyTo c.text) :=
  ⟨(ch.comment c).1, (ch.comment c).2, h.inDocument⟩

/-- The editor after a change: the damaged region is repaired.  A change that is not inside
the comment is none of its business. -/
def Comment.change (attr : TextAttribute) (c : Comment) (ch : Change) : Comment :=
  if h : ch.Inside c then
    { text := ch.applyTo c.text
      offset := (ch.comment c).1
      length := (ch.comment c).2
      inDocument := h.inDocument
      styles := applyPresentation (ch.move c.styles) (createPresentation attr []
        (getDamageRegion (ch.applyTo c.text) (ch.partition c h) (ch.event c h)
          ch.changed.isSome)) }
  else c

/-- Every character of the comment has the attribute. -/
def Comment.Styled (attr : TextAttribute) (c : Comment) : Prop :=
  ∀ q, c.offset ≤ q → q < c.offset + c.length → c.styles q = some attr

/-! ### A comment stays styled -/

/-- What an event inserts ends in the document. -/
theorem DocumentEvent.stop_le {text : Text} (event : DocumentEvent text) {s : Text}
    (hs : event.inserted = some s) : event.stop ≤ text.length := by
  have hlen := congrArg List.length (event.applied s hs)
  have hoff := event.offset_le
  simp only [slice, List.length_take, List.length_drop] at hlen
  simp only [DocumentEvent.stop, hs]
  omega

/-- **What was typed is damaged**, as far as it is in the partition. -/
theorem getDamageRegion_covers {text : Text} {partition : TypedRegion text}
    {event : DocumentEvent text} (changed : Bool) (hstart : partition.offset ≤ event.offset)
    (hend : event.offset ≤ partition.offset + partition.length) {s : Text}
    (hs : event.inserted = some s) {q : ℕ} (hq : event.offset ≤ q)
    (hq' : q < event.offset + s.length) (hp : q < partition.offset + partition.length) :
    (getDamageRegion text partition event changed).offset ≤ (q : ℤ) ∧
      (q : ℤ) < (getDamageRegion text partition event changed).offset
        + (getDamageRegion text partition event changed).length := by
  have hwhole := (damages_partition partition event).inserted s hs q hq hq' (hstart.trans hq) hp
  cases changed with
  | true => exact hwhole
  | false =>
    obtain ⟨k, info, -, hinfo, hmem, hle, -⟩ := getLineOfOffset_spec event.offset_le
    have hlines := damagedLines_eq partition hinfo
    -- the text that was typed ends in the line it starts in, or in a later one
    have hfound : ∃ line ∈ documentLines text, event.stop ≤ line.end ∧
        (if info.offset ≤ event.stop ∧ event.stop ≤ info.end then some info.end
          else endOfLineOf text event.stop) = some line.end := by
      by_cases hsame : info.offset ≤ event.stop ∧ event.stop ≤ info.end
      · exact ⟨info, hmem, hsame.2, if_pos hsame⟩
      · obtain ⟨stop, hstop, hlestop, line, hline, rfl⟩ := endOfLineOf_spec (event.stop_le hs)
        exact ⟨line, hline, hlestop, by rw [if_neg hsame, hstop]⟩
    obtain ⟨line, hline, hstop, hfound⟩ := hfound
    rw [hfound, Option.map_some] at hlines
    rw [getDamageRegion, hlines]
    exact (damages_lines hstart hend hinfo hle hline hstop).inserted s hs q hq hq'
      (hstart.trans hq) hp

/-- What was there before the change and in the comment has the attribute. -/
theorem Comment.Styled.move {attr : TextAttribute} {c : Comment} (h : c.Styled attr) {ch : Change}
    (hinside : ch.Inside c) {q : ℕ} (hq : c.offset ≤ q)
    (hq' : q < c.offset + (c.length - ch.length + ch.inserted.length))
    (hold : ¬ (ch.offset ≤ q ∧ q < ch.offset + ch.inserted.length)) :
    ch.move c.styles q = some attr := by
  have hstart := hinside.start_le
  have hend := hinside.le_end
  unfold Change.move
  split
  · exact h q hq (by omega)
  · split
    · exact absurd ⟨by omega, by omega⟩ hold
    · exact h _ (by omega) (by omega)

/-- **One change**: the comment is styled after the repair. -/
theorem Comment.Styled.change {attr : TextAttribute} {c : Comment} (h : c.Styled attr)
    (ch : Change) : (c.change attr ch).Styled attr := by
  unfold Comment.change
  split
  · next hinside =>
    intro q hq hq'
    have hq : (ch.comment c).1 ≤ q := hq
    have hq' : q < (ch.comment c).1 + (ch.comment c).2 := hq'
    change applyPresentation _ _ q = some attr
    rw [applyPresentation_createPresentation]
    split
    · rfl
    · next hundamaged =>
      -- outside the damage the character has been there before the change
      cases hchanged : ch.changed with
      | some p =>
        rw [hchanged] at hundamaged
        refine absurd ?_ hundamaged
        have hregion : getDamageRegion (ch.applyTo c.text) (ch.partition c hinside)
            (ch.event c hinside) (some p).isSome = (ch.partition c hinside).region := rfl
        rw [hregion]
        simp only [TypedRegion.region, Change.partition]
        omega
      | none =>
        have hcomment : ch.comment c = (c.offset, c.length - ch.length + ch.inserted.length) := by
          rw [Change.comment, hchanged]
          rfl
        have hpartition : (ch.partition c hinside).offset = (ch.comment c).1 ∧
            (ch.partition c hinside).length = (ch.comment c).2 := ⟨rfl, rfl⟩
        have hstart := hinside.start_le
        have hend := hinside.le_end
        rw [hcomment] at hq hq' hpartition
        refine h.move hinside hq hq' ?_
        rintro ⟨htyped, htyped'⟩
        have hbefore : (ch.partition c hinside).offset ≤ (ch.event c hinside).offset := by
          rw [hpartition.1]
          exact hstart
        refine hundamaged (getDamageRegion_covers _ hbefore ?_ rfl htyped htyped' ?_)
        · rw [hpartition.1, hpartition.2]
          change ch.offset ≤ _
          omega
        · rw [hpartition.1, hpartition.2]
          exact hq'
  · exact h

/-- **A comment stays styled**: after any sequence of changes, whatever was typed and
whatever style the widget gave to it, every character of the comment has the attribute of
the repairer. -/
theorem comment_stays_styled (attr : TextAttribute) {c : Comment} (h : c.Styled attr)
    (changes : List Change) : Run.Always (Comment.change attr) (Comment.Styled attr) c changes :=
  Run.always_of_eachStep (C := fun _ _ => True) (fun _ ch h _ => h.change ch) h
    (Run.eachStep_of_forall (fun _ _ => trivial) changes c)

/-- The colour of comments, as the editor asks for it first. -/
def commentAttribute : TextAttribute := ⟨⟨0, IXMLColorConstants.XML_COMMENT⟩⟩

/-- The document `<!--a-->`, a comment in its colour. -/
def shortComment : Comment where
  text := [60, 33, 45, 45, 97, 45, 45, 62]
  offset := 0
  length := 8
  inDocument := by decide
  styles _ := some commentAttribute

/-- Typing a line end and a `b` after the `a`, and then deleting the `a`. -/
theorem comment_stays_styled_typing :
    Run.Always (Comment.change commentAttribute) (Comment.Styled commentAttribute) shortComment
      [⟨5, 0, [10, 98], fun _ => none, none⟩, ⟨4, 1, [], fun _ => none, none⟩] :=
  comment_stays_styled commentAttribute (fun _ _ _ => rfl) _

end NonRuleBasedDamagerRepairer

end SilverTree
