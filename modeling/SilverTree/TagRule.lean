import SilverTree.Workbench
import Mathlib.Data.List.Infix

/-!
# The rules of the partition scanner

The editor divides a document into comments, tags and the rest with a partition scanner.
Its rules read characters from a scanner and unread them again when they do not apply.
`TagRule` looks for a `<` and a `>` after it; it overrides `sequenceDetected`, which the
inherited code calls for the start of a tag and for its end, so as to leave comments and
processing instructions to other rules.

JFace's rules are modelled as far as the plug-in uses them: no escape character, no
column, not resumed.  The overridden method is a field of the rule.

## Main definitions

* `read`, `unread` — the scanner, as a state that is the offset.
* `PatternRule`, `evaluate`, `endSequenceDetected` — JFace's rules.
* `FirstAt sequence text p q` — the first occurrence of a sequence.
* `tagRule`, `commentRule` — the rules of `XMLPartitionScanner`, `nextToken` — the scanner
  that tries them.

## Main results

* `PatternRule.Searches.endSequenceDetectedFrom_spec` — where the search for an end sequence
  stops, for every rule.
* `PatternRule.Plain.evaluate_eq` — what a rule with the inherited method does, at every offset.
* `evaluate_tagRule` — what the tag rule does, at every offset.
* `evaluate_tag_iff` — **when the tag rule finds the tags.**
* `evaluate_failure_iff` — **when a failure leaves the scanner where it was.**
* `tokensFrom_reaches_end` — **the scanner reaches the end of every text.**
-/

namespace SilverTree

namespace XMLPartitionScanner

/-! ### The scanner -/

/-- Programs that read from a scanner; the state is its offset. -/
abbrev Scanner := StateM ℕ

/-- `ICharacterScanner.read`: the offset moves on, also at the end of the text, where
`none` is `EOF`. -/
def read (text : Text) : Scanner (Option JChar) := fun offset => (text[offset]?, offset + 1)

/-- `ICharacterScanner.unread`. -/
def unread : Scanner Unit := fun offset => ((), offset - 1)

@[simp] theorem pure_run {α : Type} (a : α) (offset : ℕ) :
    (pure a : Scanner α) offset = (a, offset) := rfl

@[simp] theorem bind_run {α β : Type} (x : Scanner α) (next : α → Scanner β) (offset : ℕ) :
    (x >>= next) offset = next (x offset).1 (x offset).2 := rfl

@[simp] theorem map_run {α β : Type} (g : α → β) (x : Scanner α) (offset : ℕ) :
    (g <$> x) offset = (g (x offset).1, (x offset).2) := rfl

@[simp] theorem read_run (text : Text) (offset : ℕ) :
    read text offset = (text[offset]?, offset + 1) := rfl

@[simp] theorem unread_run (offset : ℕ) : unread offset = ((), offset - 1) := rfl

/-- Unread `n` characters. -/
def unreadTimes : ℕ → Scanner Unit
  | 0 => pure ()
  | n + 1 => do
    unread
    unreadTimes n

theorem unreadTimes_run : ∀ n offset, unreadTimes n offset = ((), offset - n) := by
  intro n
  induction n with
  | zero => exact fun offset => rfl
  | succ n ih =>
    intro offset
    have hstep : unreadTimes (n + 1) offset = unreadTimes n (offset - 1) := rfl
    rw [hstep, ih, Nat.sub_sub, Nat.add_comm 1 n]

/-! ### Pattern rules -/

/-- JFace's `PatternRule`, without an escape character and not breaking at line ends. -/
structure PatternRule where
  startSequence : Text
  endSequence : Text
  breaksOnEOF : Bool
  /-- The method that compares a sequence after its first character. -/
  sequenceDetected : Text → Text → Bool → Scanner Bool

/-- The loop of `sequenceDetected`, at index `i` of the sequence. -/
def sequenceDetectedFrom (text : Text) (eofAllowed : Bool) : ℕ → Text → Scanner Bool
  | _, [] => pure true
  | i, d :: rest => do
    let c ← read text
    if c = none ∧ eofAllowed = true then
      pure true
    else if c ≠ some d then do
      -- back to right after the first character of the sequence
      unreadTimes i
      pure false
    else sequenceDetectedFrom text eofAllowed (i + 1) rest

/-- `PatternRule.sequenceDetected`. -/
def PatternRule.inheritedSequenceDetected (text sequence : Text) (eofAllowed : Bool) :
    Scanner Bool :=
  sequenceDetectedFrom text eofAllowed 1 sequence.tail

/-- The loop of `endSequenceDetected`.  `none` is that the fuel did not suffice. -/
def endSequenceDetectedFrom (rule : PatternRule) (text : Text) : ℕ → ℕ → Scanner (Option Bool)
  | 0, _ => pure none
  | fuel + 1, readCount => do
    match ← read text with
    | none =>
      if rule.breaksOnEOF then
        pure (some true)
      else do
        unreadTimes readCount
        pure (some false)
    | some c =>
      if rule.endSequence.head? = some c then
        if ← rule.sequenceDetected text rule.endSequence rule.breaksOnEOF then
          pure (some true)
        else endSequenceDetectedFrom rule text fuel (readCount + 1)
      else endSequenceDetectedFrom rule text fuel (readCount + 1)

/-- `PatternRule.endSequenceDetected`. -/
def endSequenceDetected (rule : PatternRule) (text : Text) : Scanner (Option Bool) :=
  endSequenceDetectedFrom rule text (text.length + 1) 1

/-- `PatternRule.evaluate`: whether the rule's token is returned. -/
def evaluate (rule : PatternRule) (text : Text) : Scanner (Option Bool) := do
  let c ← read text
  if c = rule.startSequence.head? then
    if ← rule.sequenceDetected text rule.startSequence false then
      match ← endSequenceDetected rule text with
      | some false => do
        unread
        pure (some false)
      | found => pure found
    else do
      unread
      pure (some false)
  else do
    unread
    pure (some false)

/-! ### The rules of the editor -/

/-- The character `<`. -/
def lt : JChar := 60

/-- The character `>`. -/
def gt : JChar := 62

/-- The character `?`. -/
def questionMark : JChar := 63

/-- The character `!`. -/
def exclamationMark : JChar := 33

/-- `TagRule.sequenceDetected`. -/
def TagRule.sequenceDetected (text sequence : Text) (eofAllowed : Bool) : Scanner Bool := do
  let c ← read text
  if sequence.head? = some lt then
    if c = some questionMark then do
      -- processing instruction
      unread
      pure false
    else if c = some exclamationMark then do
      -- comment
      unread
      pure false
    else
      -- the character stays read
      PatternRule.inheritedSequenceDetected text sequence eofAllowed
  else if sequence.head? = some gt then do
    unread
    PatternRule.inheritedSequenceDetected text sequence eofAllowed
  else PatternRule.inheritedSequenceDetected text sequence eofAllowed

/-- `TagRule`. -/
def tagRule : PatternRule where
  startSequence := [lt]
  endSequence := [gt]
  breaksOnEOF := false
  sequenceDetected := TagRule.sequenceDetected

/-- The rule for comments, from `<!--` to `-->`. -/
def commentRule : PatternRule where
  startSequence := [lt, exclamationMark, 45, 45]
  endSequence := [45, 45, gt]
  breaksOnEOF := false
  sequenceDetected := PatternRule.inheritedSequenceDetected

/-! ### Occurrences of a sequence -/

/-- The sequence is in the text at `p`. -/
def OccursAt (sequence text : Text) (p : ℕ) : Prop := sequence <+: text.drop p

instance (sequence text : Text) (p : ℕ) : Decidable (OccursAt sequence text p) :=
  inferInstanceAs (Decidable (_ <+: _))

theorem occursAt_nil (text : Text) (p : ℕ) : OccursAt [] text p := List.nil_prefix

theorem occursAt_cons {text rest : Text} {d : JChar} {p : ℕ} :
    OccursAt (d :: rest) text p ↔ text[p]? = some d ∧ OccursAt rest text (p + 1) := by
  unfold OccursAt
  rcases Nat.lt_or_ge p text.length with hlt | hge
  · rw [List.drop_eq_getElem_cons hlt, List.cons_prefix_cons, List.getElem?_eq_getElem hlt,
      Option.some.injEq, eq_comm]
  · rw [List.drop_eq_nil_of_le hge, List.getElem?_eq_none hge]
    simp

theorem OccursAt.head_eq {sequence text : Text} {p : ℕ} (h : OccursAt sequence text p)
    (hne : sequence ≠ []) : sequence.head? = text[p]? := by
  obtain ⟨d, rest, rfl⟩ := List.exists_cons_of_ne_nil hne
  rw [List.head?_cons, (occursAt_cons.mp h).1]

theorem OccursAt.le {sequence text : Text} {p : ℕ} (h : OccursAt sequence text p)
    (hne : sequence ≠ []) : p + sequence.length ≤ text.length := by
  have hlen := h.length_le
  have hpos : 0 < sequence.length := List.length_pos_iff.mpr hne
  rw [List.length_drop] at hlen
  omega

/-- The first occurrence of a sequence at or after `p`. -/
structure FirstAt (sequence text : Text) (p q : ℕ) : Prop where
  le : p ≤ q
  found : OccursAt sequence text q
  first : ∀ r, p ≤ r → r < q → ¬ OccursAt sequence text r

theorem FirstAt.unique {sequence text : Text} {p q q' : ℕ} (h : FirstAt sequence text p q)
    (h' : FirstAt sequence text p q') : q = q' := by
  rcases Nat.lt_trichotomy q q' with hlt | heq | hgt
  · exact absurd h.found (h'.first q h.le hlt)
  · exact heq
  · exact absurd h'.found (h.first q' h'.le hgt)

theorem FirstAt.self {sequence text : Text} {p : ℕ} (h : OccursAt sequence text p) :
    FirstAt sequence text p p := by
  refine ⟨Nat.le_refl p, h, ?_⟩
  intro r hpr hrp
  omega

/-- A position where the sequence is not can be left out. -/
theorem FirstAt.of_succ {sequence text : Text} {p q : ℕ} (h : FirstAt sequence text (p + 1) q)
    (hp : ¬ OccursAt sequence text p) : FirstAt sequence text p q := by
  have hle := h.le
  refine ⟨by omega, h.found, ?_⟩
  intro r hpr hrq
  rcases Nat.eq_or_lt_of_le hpr with heq | hlt
  · rw [← heq]
    exact hp
  · exact h.first r hlt hrq

/-! ### The search for an end sequence -/

/-- A rule that does not accept the end of the text, and whose `sequenceDetected` passes its
end sequence where it occurs and otherwise gives back what it has read. -/
structure PatternRule.Searches (rule : PatternRule) (text : Text) : Prop where
  ne_nil : rule.endSequence ≠ []
  strict : rule.breaksOnEOF = false
  detects : ∀ p, rule.endSequence.head? = text[p]? →
    rule.sequenceDetected text rule.endSequence false (p + 1) =
      if OccursAt rule.endSequence text p then (true, p + rule.endSequence.length)
      else (false, p + 1)

section Searches

variable {rule : PatternRule} {text : Text} (h : rule.Searches text)
include h

/-- One round of the search, at the end of the text. -/
theorem PatternRule.Searches.endSequenceDetectedFrom_eof (fuel readCount : ℕ) {offset : ℕ}
    (hlen : text.length ≤ offset) :
    endSequenceDetectedFrom rule text (fuel + 1) readCount offset
      = (some false, offset + 1 - readCount) := by
  have hc : text[offset]? = none := List.getElem?_eq_none hlen
  simp [endSequenceDetectedFrom, hc, h.strict, unreadTimes_run]

/-- One round of the search, where the end sequence occurs. -/
theorem PatternRule.Searches.endSequenceDetectedFrom_found (fuel readCount : ℕ) {offset : ℕ}
    (hoccurs : OccursAt rule.endSequence text offset) :
    endSequenceDetectedFrom rule text (fuel + 1) readCount offset
      = (some true, offset + rule.endSequence.length) := by
  have hhead := hoccurs.head_eq h.ne_nil
  have hdetect := h.detects offset hhead
  rw [if_pos hoccurs] at hdetect
  obtain ⟨d, rest, hend⟩ := List.exists_cons_of_ne_nil h.ne_nil
  have hd : text[offset]? = some d := by rw [← hhead, hend, List.head?_cons]
  simp [endSequenceDetectedFrom, hd, hhead, h.strict, hdetect]

/-- One round of the search, where the end sequence does not occur. -/
theorem PatternRule.Searches.endSequenceDetectedFrom_succ (fuel readCount : ℕ) {offset : ℕ}
    {c : JChar} (hc : text[offset]? = some c) (hnot : ¬ OccursAt rule.endSequence text offset) :
    endSequenceDetectedFrom rule text (fuel + 1) readCount offset
      = endSequenceDetectedFrom rule text fuel (readCount + 1) (offset + 1) := by
  by_cases hhead : rule.endSequence.head? = some c
  · have hdetect := h.detects offset (hhead.trans hc.symm)
    rw [if_neg hnot] at hdetect
    simp [endSequenceDetectedFrom, hc, hhead, h.strict, hdetect]
  · simp [endSequenceDetectedFrom, hc, hhead]

theorem PatternRule.Searches.not_occursAt_of_ge {q : ℕ} (hq : text.length ≤ q) :
    ¬ OccursAt rule.endSequence text q := by
  intro hoccurs
  have hle := hoccurs.le h.ne_nil
  have hpos : 0 < rule.endSequence.length := List.length_pos_iff.mpr h.ne_nil
  omega

/-- **The search for the end of a rule** stops after the first occurrence of the end
sequence, and without one it gives back all it has read but the characters it was given
as read. -/
theorem PatternRule.Searches.endSequenceDetectedFrom_spec : ∀ fuel readCount offset,
    text.length ≤ offset + fuel →
      (∃ q, FirstAt rule.endSequence text offset q ∧
          endSequenceDetectedFrom rule text (fuel + 1) readCount offset
            = (some true, q + rule.endSequence.length)) ∨
        ((∀ q, offset ≤ q → ¬ OccursAt rule.endSequence text q) ∧
          endSequenceDetectedFrom rule text (fuel + 1) readCount offset
            = (some false, offset + 1 - readCount)) := by
  intro fuel
  induction fuel with
  | zero =>
    intro readCount offset hfuel
    exact Or.inr ⟨fun q hq => h.not_occursAt_of_ge (Nat.le_trans hfuel hq),
      h.endSequenceDetectedFrom_eof 0 readCount hfuel⟩
  | succ fuel ih =>
    intro readCount offset hfuel
    rcases Nat.lt_or_ge offset text.length with hlt | hge
    · have hc : text[offset]? = some text[offset] := List.getElem?_eq_getElem hlt
      by_cases hoccurs : OccursAt rule.endSequence text offset
      · exact Or.inl ⟨offset, .self hoccurs,
          h.endSequenceDetectedFrom_found (fuel + 1) readCount hoccurs⟩
      · rw [h.endSequenceDetectedFrom_succ (fuel + 1) readCount hc hoccurs]
        rcases ih (readCount + 1) (offset + 1) (by omega) with ⟨q, hq, hrun⟩ | ⟨hnone, hrun⟩
        · exact Or.inl ⟨q, hq.of_succ hoccurs, hrun⟩
        · refine Or.inr ⟨?_, by rw [hrun, Nat.add_sub_add_right]⟩
          intro q hq
          rcases Nat.eq_or_lt_of_le hq with heq | hlt'
          · rw [← heq]
            exact hoccurs
          · exact hnone q hlt'
    · exact Or.inr ⟨fun q hq => h.not_occursAt_of_ge (Nat.le_trans hge hq),
        h.endSequenceDetectedFrom_eof _ readCount hge⟩

end Searches

/-! ### What the tag rule does -/

/-- The first `>` at or after `p`. -/
structure FirstGt (text : Text) (p q : ℕ) : Prop where
  le : p ≤ q
  found : text[q]? = some gt
  first : ∀ r, p ≤ r → r < q → text[r]? ≠ some gt

/-- A comment or a processing instruction starts with this character after the `<`. -/
def IsOther (c : Option JChar) : Prop := c = some questionMark ∨ c = some exclamationMark

instance (c : Option JChar) : Decidable (IsOther c) := inferInstanceAs (Decidable (_ ∨ _))

theorem occursAt_gt {text : Text} {p : ℕ} : OccursAt [gt] text p ↔ text[p]? = some gt := by
  rw [occursAt_cons, and_iff_left (occursAt_nil text _)]

/-- The first `>` is the first occurrence of the end sequence of a tag. -/
theorem firstGt_iff_firstAt {text : Text} {p q : ℕ} :
    FirstGt text p q ↔ FirstAt [gt] text p q := by
  constructor
  · rintro ⟨hle, hfound, hfirst⟩
    exact ⟨hle, occursAt_gt.mpr hfound, fun r hpr hrq h => hfirst r hpr hrq (occursAt_gt.mp h)⟩
  · rintro ⟨hle, hfound, hfirst⟩
    exact ⟨hle, occursAt_gt.mp hfound, fun r hpr hrq h => hfirst r hpr hrq (occursAt_gt.mpr h)⟩

theorem FirstGt.unique {text : Text} {p q q' : ℕ} (h : FirstGt text p q) (h' : FirstGt text p q') :
    q = q' :=
  (firstGt_iff_firstAt.mp h).unique (firstGt_iff_firstAt.mp h')

theorem FirstGt.self {text : Text} {p : ℕ} (h : text[p]? = some gt) : FirstGt text p p :=
  firstGt_iff_firstAt.mpr (.self (occursAt_gt.mpr h))

/-- Any other character can be left out. -/
theorem FirstGt.of_succ {text : Text} {p q : ℕ} (h : FirstGt text (p + 1) q)
    (hp : text[p]? ≠ some gt) : FirstGt text p q :=
  firstGt_iff_firstAt.mpr ((firstGt_iff_firstAt.mp h).of_succ fun hgt => hp (occursAt_gt.mp hgt))

/-- At the start of something else the rule reads one more character and unreads it. -/
theorem sequenceDetected_other {text : Text} (eofAllowed : Bool) {offset : ℕ}
    (h : IsOther text[offset]?) :
    TagRule.sequenceDetected text [lt] eofAllowed offset = (false, offset) := by
  rcases h with h | h
  · simp [TagRule.sequenceDetected, h]
  · have hne : exclamationMark ≠ questionMark := by decide
    simp [TagRule.sequenceDetected, h, hne]

/-- At the start of a tag the character it reads stays read. -/
theorem sequenceDetected_start {text : Text} (eofAllowed : Bool) {offset : ℕ}
    (h : ¬ IsOther text[offset]?) :
    TagRule.sequenceDetected text [lt] eofAllowed offset = (true, offset + 1) := by
  obtain ⟨hq, hx⟩ := not_or.mp h
  simp [TagRule.sequenceDetected, hq, hx, PatternRule.inheritedSequenceDetected,
    sequenceDetectedFrom]

/-- At the end of a tag it reads and unreads. -/
theorem sequenceDetected_end (text : Text) (eofAllowed : Bool) (offset : ℕ) :
    TagRule.sequenceDetected text [gt] eofAllowed offset = (true, offset) := by
  have hne : gt ≠ lt := by decide
  simp [TagRule.sequenceDetected, hne, PatternRule.inheritedSequenceDetected,
    sequenceDetectedFrom]

theorem tagRule_searches (text : Text) : tagRule.Searches text where
  ne_nil := by decide
  strict := rfl
  detects p hhead := by
    have hgt : OccursAt tagRule.endSequence text p := occursAt_gt.mpr hhead.symm
    rw [if_pos hgt]
    exact sequenceDetected_end text false (p + 1)

/-- **The search for the end of a tag** stops after the first `>`; without one it gives
back all it has read but the characters it was given as read. -/
theorem endSequenceDetectedFrom_tagRule (text : Text) (fuel readCount offset : ℕ)
    (hfuel : text.length ≤ offset + fuel) :
    (∃ q, FirstGt text offset q ∧
        endSequenceDetectedFrom tagRule text (fuel + 1) readCount offset = (some true, q + 1)) ∨
      ((∀ q, offset ≤ q → text[q]? ≠ some gt) ∧
        endSequenceDetectedFrom tagRule text (fuel + 1) readCount offset
          = (some false, offset + 1 - readCount)) := by
  rcases (tagRule_searches text).endSequenceDetectedFrom_spec fuel readCount offset hfuel
    with ⟨q, hq, hrun⟩ | ⟨hnone, hrun⟩
  · exact Or.inl ⟨q, firstGt_iff_firstAt.mpr hq, hrun⟩
  · exact Or.inr ⟨fun q hq hgt => hnone q hq (occursAt_gt.mpr hgt), hrun⟩

/-- At any other character the rule unreads it. -/
theorem evaluate_not_lt {text : Text} {s : ℕ} (h : text[s]? ≠ some lt) :
    evaluate tagRule text s = (some false, s) := by
  simp [evaluate, h, tagRule]

/-- A comment or a processing instruction is left to the other rules. -/
theorem evaluate_other {text : Text} {s : ℕ} (h : text[s]? = some lt) (ho : IsOther text[s + 1]?) :
    evaluate tagRule text s = (some false, s) := by
  have hdetect : TagRule.sequenceDetected text [lt] false (s + 1) = (false, s + 1) :=
    sequenceDetected_other false ho
  simp [evaluate, h, tagRule, hdetect]

/-- The search for the end starts two characters after the start of the tag. -/
theorem evaluate_start {text : Text} {s offset : ℕ} {found : Bool} (h : text[s]? = some lt)
    (ho : ¬ IsOther text[s + 1]?)
    (hsearch : endSequenceDetected tagRule text (s + 2) = (some found, offset)) :
    evaluate tagRule text s = (some found, if found then offset else offset - 1) := by
  have hdetect : tagRule.sequenceDetected text tagRule.startSequence false (s + 1)
      = (true, s + 2) := sequenceDetected_start false ho
  have hhead : tagRule.startSequence.head? = some lt := rfl
  cases found with
  | true => simp [evaluate, h, hhead, hdetect, hsearch]
  | false =>
    simp [evaluate, h, hhead, hdetect, hsearch]

/-- **What evaluating the tag rule does**: it fails where it started when no tag starts
there, it fails one character further when the tag does not end, and otherwise it ends
after the first `>` that is not the character after the `<`. -/
theorem evaluate_tagRule (text : Text) (s : ℕ) :
    ((text[s]? ≠ some lt ∨ IsOther text[s + 1]?) ∧ evaluate tagRule text s = (some false, s)) ∨
      ((text[s]? = some lt ∧ ¬ IsOther text[s + 1]?) ∧
        ((∃ q, FirstGt text (s + 2) q ∧ evaluate tagRule text s = (some true, q + 1)) ∨
          ((∀ q, s + 2 ≤ q → text[q]? ≠ some gt) ∧
            evaluate tagRule text s = (some false, s + 1)))) := by
  by_cases hlt : text[s]? = some lt
  · by_cases ho : IsOther text[s + 1]?
    · exact Or.inl ⟨Or.inr ho, evaluate_other hlt ho⟩
    · refine Or.inr ⟨⟨hlt, ho⟩, ?_⟩
      rcases endSequenceDetectedFrom_tagRule text text.length 1 (s + 2) (by omega)
        with ⟨q, hq, hrun⟩ | ⟨hnone, hrun⟩
      · exact Or.inl ⟨q, hq, evaluate_start hlt ho hrun⟩
      · exact Or.inr ⟨hnone, evaluate_start hlt ho hrun⟩
  · exact Or.inl ⟨Or.inl hlt, evaluate_not_lt hlt⟩

/-- The rule returns, it succeeds exactly on the tags, and the scanner then stands after
the first `>` that follows the start. -/
structure FindsTag (text : Text) (s : ℕ) : Prop where
  returns : (evaluate tagRule text s).1 ≠ none
  success : (evaluate tagRule text s).1 = some true ↔
    text[s]? = some lt ∧ ¬ IsOther text[s + 1]? ∧ ∃ q, s < q ∧ text[q]? = some gt
  position : (evaluate tagRule text s).1 = some true →
    ∃ q, FirstGt text (s + 1) q ∧ (evaluate tagRule text s).2 = q + 1

/-- Right after a `<`, a `>` is passed over. -/
theorem not_findsTag_of_empty {text : Text} {s : ℕ} (hlt : text[s]? = some lt)
    (hgt : text[s + 1]? = some gt) : ¬ FindsTag text s := by
  intro h
  have hother : ¬ IsOther text[s + 1]? := by
    rw [hgt]
    decide
  have hsucc : (evaluate tagRule text s).1 = some true :=
    h.success.mpr ⟨hlt, hother, s + 1, by omega, hgt⟩
  obtain ⟨q, hq, hpos⟩ := h.position hsucc
  have hfirst : q = s + 1 := hq.unique (FirstGt.self hgt)
  rcases evaluate_tagRule text s with ⟨-, hrun⟩ | ⟨-, ⟨q', hq', hrun⟩ | ⟨-, hrun⟩⟩
  · rw [hrun] at hsucc
    cases hsucc
  · -- the search has started after the first `>`
    have hle := hq'.le
    rw [hrun] at hpos
    have hpos' : q' + 1 = q + 1 := hpos
    omega
  · rw [hrun] at hsucc
    cases hsucc

/-- **The rule finds the tags**, except where a `>` follows the `<` at once. -/
theorem evaluate_tag_iff (text : Text) (s : ℕ) :
    FindsTag text s ↔ ¬ (text[s]? = some lt ∧ text[s + 1]? = some gt) := by
  constructor
  · intro h hempty
    exact not_findsTag_of_empty hempty.1 hempty.2 h
  · intro hnot
    have hnext : text[s]? = some lt → text[s + 1]? ≠ some gt := fun hlt hgt => hnot ⟨hlt, hgt⟩
    rcases evaluate_tagRule text s with ⟨hno, hrun⟩ | ⟨⟨hlt, hother⟩, ⟨q, hq, hrun⟩ | ⟨hnone, hrun⟩⟩
    · -- no tag starts here
      refine ⟨by simp [hrun], ?_, by simp [hrun]⟩
      simp only [hrun, Option.some.injEq, Bool.false_eq_true, false_iff]
      intro h
      rcases hno with hlt | hother
      · exact hlt h.1
      · exact h.2.1 hother
    · have hle := hq.le
      refine ⟨by simp [hrun], ?_, fun _ => ⟨q, hq.of_succ (hnext hlt), by simp [hrun]⟩⟩
      simp only [hrun, true_iff]
      exact ⟨hlt, hother, q, by omega, hq.found⟩
    · -- the tag does not end
      refine ⟨by simp [hrun], ?_, by simp [hrun]⟩
      simp only [hrun, Option.some.injEq, Bool.false_eq_true, false_iff]
      intro h
      obtain ⟨-, -, q, hq, hgt⟩ := h
      rcases Nat.eq_or_lt_of_le (show s + 1 ≤ q from hq) with heq | hlt'
      · rw [← heq] at hgt
        exact hnext hlt hgt
      · exact hnone q hlt' hgt

/-- The text `<>;>`, where the tag that is found is `<>;>`, and `<>`, where none is. -/
theorem evaluate_empty_tag :
    ¬ FindsTag [lt, gt, 59, gt] 0 ∧ ¬ FindsTag [lt, gt] 0 := by
  constructor
  · intro h
    obtain ⟨q, hq, hpos⟩ := h.position (by decide)
    have hfirst : q = 1 := hq.unique (FirstGt.self (by decide))
    rw [hfirst] at hpos
    revert hpos
    decide
  · intro h
    have hsucc := h.success.mpr ⟨by decide, by decide, 1, by decide, by decide⟩
    revert hsucc
    decide

/-- **A failure leaves the scanner where it was**, except after the start of a tag that
does not end.  The `>` right after the `<` does not count as its end. -/
theorem evaluate_failure_iff (text : Text) (s : ℕ) :
    ((evaluate tagRule text s).1 ≠ some true → (evaluate tagRule text s).2 = s) ↔
      (text[s]? = some lt → IsOther text[s + 1]? ∨ ∃ q, s + 2 ≤ q ∧ text[q]? = some gt) := by
  rcases evaluate_tagRule text s with ⟨hno, hrun⟩ | ⟨⟨hlt, hother⟩, ⟨q, hq, hrun⟩ | ⟨hnone, hrun⟩⟩
  · rw [hrun]
    refine ⟨fun _ hlt => ?_, fun _ _ => rfl⟩
    rcases hno with hnot | hother
    · exact absurd hlt hnot
    · exact Or.inl hother
  · rw [hrun]
    exact ⟨fun _ _ => Or.inr ⟨q, hq.le, hq.found⟩, fun _ h => absurd rfl h⟩
  · rw [hrun]
    refine ⟨fun h => ?_, fun h => ?_⟩
    · have hs : s + 1 = s := h (by simp)
      omega
    · rcases h hlt with ho | ⟨q, hle, hq⟩
      · exact absurd ho hother
      · exact absurd hq (hnone q hle)

/-- After `<a` the scanner stands on the `a`. -/
theorem evaluate_unclosed_tag :
    ¬ ((evaluate tagRule [lt, 97] 0).1 ≠ some true → (evaluate tagRule [lt, 97] 0).2 = 0) := by
  decide

/-! ### Rules that do not override `sequenceDetected` -/

/-- A rule with the inherited method that does not accept the end of the text. -/
structure PatternRule.Plain (rule : PatternRule) : Prop where
  inherited : rule.sequenceDetected = PatternRule.inheritedSequenceDetected
  strict : rule.breaksOnEOF = false

/-- The comparison of a sequence, exactly. -/
theorem sequenceDetectedFrom_eq (text : Text) : ∀ (sequence : Text) (i offset : ℕ),
    sequenceDetectedFrom text false i sequence offset =
      if OccursAt sequence text offset then (true, offset + sequence.length)
      else (false, offset + 1 - i) := by
  intro sequence
  induction sequence with
  | nil =>
    intro i offset
    rw [if_pos (occursAt_nil text offset)]
    rfl
  | cons d rest ih =>
    intro i offset
    by_cases hc : text[offset]? = some d
    · have hstep : sequenceDetectedFrom text false i (d :: rest) offset
          = sequenceDetectedFrom text false (i + 1) rest (offset + 1) := by
        simp [sequenceDetectedFrom, hc]
      have hoccurs : OccursAt (d :: rest) text offset ↔ OccursAt rest text (offset + 1) := by
        rw [occursAt_cons, and_iff_right hc]
      rw [hstep, ih]
      by_cases hrest : OccursAt rest text (offset + 1)
      · rw [if_pos hrest, if_pos (hoccurs.mpr hrest), List.length_cons, Nat.add_assoc,
          Nat.add_comm 1]
      · rw [if_neg hrest, if_neg (fun h => hrest (hoccurs.mp h)), Nat.add_sub_add_right]
    · rw [if_neg (fun h => hc (occursAt_cons.mp h).1)]
      simp [sequenceDetectedFrom, hc, unreadTimes_run]

section Plain

variable {rule : PatternRule} (h : rule.Plain) (text : Text)
include h

/-- After the first character of a sequence, the rest of it is compared. -/
theorem PatternRule.Plain.sequenceDetected_eq {d : JChar} (rest : Text) {p : ℕ}
    (hc : text[p]? = some d) :
    rule.sequenceDetected text (d :: rest) false (p + 1) =
      if OccursAt (d :: rest) text p then (true, p + (d :: rest).length) else (false, p + 1) := by
  have hoccurs : OccursAt (d :: rest) text p ↔ OccursAt rest text (p + 1) := by
    rw [occursAt_cons, and_iff_right hc]
  have hrun : rule.sequenceDetected text (d :: rest) false (p + 1)
      = sequenceDetectedFrom text false 1 rest (p + 1) := by
    rw [h.inherited]
    rfl
  rw [hrun, sequenceDetectedFrom_eq]
  by_cases hrest : OccursAt rest text (p + 1)
  · rw [if_pos hrest, if_pos (hoccurs.mpr hrest), List.length_cons, Nat.add_assoc, Nat.add_comm 1]
  · rw [if_neg hrest, if_neg (fun h => hrest (hoccurs.mp h)), Nat.add_sub_cancel]

theorem PatternRule.Plain.searches (hend : rule.endSequence ≠ []) : rule.Searches text where
  ne_nil := hend
  strict := h.strict
  detects p hhead := by
    obtain ⟨d, rest, hseq⟩ := List.exists_cons_of_ne_nil hend
    rw [hseq] at hhead ⊢
    exact h.sequenceDetected_eq text rest hhead.symm

/-- **What evaluating a rule does**: it fails where it started when its start sequence is
not there, it fails on the last character of the start sequence when the end is missing,
and otherwise it ends after the first end sequence that follows the start sequence. -/
theorem PatternRule.Plain.evaluate_eq (hstart : rule.startSequence ≠ [])
    (hend : rule.endSequence ≠ []) (s : ℕ) :
    (¬ OccursAt rule.startSequence text s ∧ evaluate rule text s = (some false, s)) ∨
      (OccursAt rule.startSequence text s ∧
        ((∃ q, FirstAt rule.endSequence text (s + rule.startSequence.length) q ∧
            evaluate rule text s = (some true, q + rule.endSequence.length)) ∨
          ((∀ q, s + rule.startSequence.length ≤ q → ¬ OccursAt rule.endSequence text q) ∧
            evaluate rule text s = (some false, s + rule.startSequence.length - 1)))) := by
  obtain ⟨d, rest, hseq⟩ := List.exists_cons_of_ne_nil hstart
  by_cases hc : text[s]? = some d
  · have hdetect := h.sequenceDetected_eq text rest hc
    rw [← hseq] at hdetect
    have hhead : rule.startSequence.head? = some d := by rw [hseq, List.head?_cons]
    by_cases hoccurs : OccursAt rule.startSequence text s
    · rw [if_pos hoccurs] at hdetect
      refine Or.inr ⟨hoccurs, ?_⟩
      rcases (h.searches text hend).endSequenceDetectedFrom_spec text.length 1
        (s + rule.startSequence.length) (by omega) with ⟨q, hq, hrun⟩ | ⟨hnone, hrun⟩
      · exact Or.inl ⟨q, hq, by simp [evaluate, hc, hhead, hdetect, endSequenceDetected, hrun]⟩
      · refine Or.inr ⟨hnone, ?_⟩
        simp [evaluate, hc, hhead, hdetect, endSequenceDetected, hrun]
    · rw [if_neg hoccurs] at hdetect
      exact Or.inl ⟨hoccurs, by simp [evaluate, hc, hhead, hdetect]⟩
  · refine Or.inl ⟨?_, ?_⟩
    · rw [hseq, occursAt_cons]
      exact fun hoccurs => hc hoccurs.1
    · simp [evaluate, hseq, hc]

end Plain

/-! ### The tokens of the partition scanner -/

/-- The tokens `XMLPartitionScanner` returns. -/
inductive PartitionToken
  | xmlComment
  | xmlTag
  | other
  | eof
  deriving DecidableEq, Repr

/-- `nextToken`: the rules are tried in their order, and where none applies one character
is read.  `none` is that the fuel of a rule did not suffice. -/
def nextToken (text : Text) : Scanner (Option PartitionToken) := do
  match ← evaluate commentRule text with
  | none => pure none
  | some true => pure (some .xmlComment)
  | some false =>
    match ← evaluate tagRule text with
    | none => pure none
    | some true => pure (some .xmlTag)
    | some false =>
      match ← read text with
      | none => pure (some .eof)
      | some _ => pure (some .other)

theorem commentRule_plain : commentRule.Plain := ⟨rfl, rfl⟩

/-- The tag rule never leaves the scanner before the character it started from. -/
theorem evaluate_tagRule_ge (text : Text) (s : ℕ) :
    ∃ found q, evaluate tagRule text s = (some found, q) ∧ s ≤ q ∧ (found = true → s < q) := by
  rcases evaluate_tagRule text s with ⟨-, hrun⟩ | ⟨-, ⟨q, hq, hrun⟩ | ⟨-, hrun⟩⟩
  · exact ⟨false, s, hrun, Nat.le_refl s, by simp⟩
  · have hle := hq.le
    exact ⟨true, q + 1, hrun, by omega, fun _ => by omega⟩
  · exact ⟨false, s + 1, hrun, by omega, by simp⟩

/-- **Every token moves the scanner on.** -/
theorem nextToken_advances (text : Text) (s : ℕ) :
    ∃ token q, nextToken text s = (some token, q) ∧ s < q := by
  -- what follows a comment rule that failed at `s` or after it
  have hrest : ∀ r, s ≤ r → evaluate commentRule text s = (some false, r) →
      ∃ token q, nextToken text s = (some token, q) ∧ s < q := by
    intro r hr hcomment
    obtain ⟨found, q, htag, hle, hlt⟩ := evaluate_tagRule_ge text r
    cases found with
    | true =>
      have hq := hlt rfl
      exact ⟨.xmlTag, q, by simp [nextToken, hcomment, htag], by omega⟩
    | false =>
      cases hc : text[q]? with
      | none => exact ⟨.eof, q + 1, by simp [nextToken, hcomment, htag, hc], by omega⟩
      | some c => exact ⟨.other, q + 1, by simp [nextToken, hcomment, htag, hc], by omega⟩
  rcases commentRule_plain.evaluate_eq text (by decide) (by decide) s
    with ⟨-, hrun⟩ | ⟨-, ⟨q, hq, hrun⟩ | ⟨-, hrun⟩⟩
  · exact hrest s (Nat.le_refl s) hrun
  · have hle : s + 4 ≤ q := hq.le
    have hrun' : evaluate commentRule text s = (some true, q + 3) := hrun
    exact ⟨.xmlComment, q + 3, by simp [nextToken, hrun'], by omega⟩
  · exact hrest (s + 3) (Nat.le_add_right s 3) hrun

/-- What is not followed by a `!` is no comment. -/
theorem evaluate_commentRule_not {text : Text} {s : ℕ}
    (h : text[s]? ≠ some lt ∨ text[s + 1]? ≠ some exclamationMark) :
    evaluate commentRule text s = (some false, s) := by
  by_cases hlt : text[s]? = some lt
  · have hnext : text[s + 1]? ≠ some exclamationMark := by
      rcases h with h | h
      · exact absurd hlt h
      · exact h
    simp [evaluate, commentRule, hlt, PatternRule.inheritedSequenceDetected, sequenceDetectedFrom,
      hnext, unreadTimes_run]
  · simp [evaluate, commentRule, hlt]

theorem nextToken_at_end {text : Text} {s : ℕ} (h : text.length ≤ s) :
    nextToken text s = (some .eof, s + 1) := by
  have hc : text[s]? = none := List.getElem?_eq_none h
  have hlt : text[s]? ≠ some lt := by simp [hc]
  simp [nextToken, evaluate_commentRule_not (Or.inl hlt), evaluate_not_lt hlt, hc]

/-- The tokens from an offset to the end of the text, each with where it starts and ends. -/
def tokensFrom (text : Text) : ℕ → ℕ → Option (List (PartitionToken × ℕ × ℕ))
  | 0, _ => none
  | fuel + 1, s =>
    match nextToken text s with
    | (none, _) => none
    | (some .eof, _) => some []
    | (some token, q) => (tokensFrom text fuel q).map ((token, s, q) :: ·)

/-- Each of the tokens starts where the one before it ends, the first one at `s`. -/
def Abut (s : ℕ) : List (PartitionToken × ℕ × ℕ) → Prop
  | [] => True
  | (_, start, stop) :: rest => start = s ∧ start < stop ∧ Abut stop rest

/-- **The scanner reaches the end of every text**, through tokens that follow each other. -/
theorem tokensFrom_reaches_end (text : Text) : ∀ fuel s, text.length ≤ s + fuel →
    ∃ tokens, tokensFrom text (fuel + 1) s = some tokens ∧ Abut s tokens := by
  intro fuel
  induction fuel with
  | zero =>
    intro s hfuel
    exact ⟨[], by simp [tokensFrom, nextToken_at_end (show text.length ≤ s by omega)], trivial⟩
  | succ fuel ih =>
    intro s hfuel
    obtain ⟨token, q, hnext, hlt⟩ := nextToken_advances text s
    obtain ⟨tokens, htokens, habut⟩ := ih q (by omega)
    by_cases heof : token = .eof
    · subst heof
      exact ⟨[], by simp [tokensFrom, hnext], trivial⟩
    · refine ⟨(token, s, q) :: tokens, ?_, rfl, hlt, habut⟩
      rw [tokensFrom, hnext]
      cases token with
      | eof => exact absurd rfl heof
      | xmlComment => simp [htokens]
      | xmlTag => simp [htokens]
      | other => simp [htokens]

end XMLPartitionScanner

end SilverTree
