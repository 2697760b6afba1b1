import SilverTree.Partitions
import SilverTree.Repairer
import Mathlib.Data.Nat.Find

/-!
# Editing inside a comment

A change inside a comment that leaves a comment changes no other partition: what stands
before it is divided as before, and what stands after it moves with the text.  So the
region that the repairer is told about, the old one with its end moved, is the comment the
scanner finds in the new text, over any sequence of such changes.

One comment, and one tag, is here what the scanner finds as the only token of a text; `<>`
is no tag in this sense.

## Main definitions

* `shiftPart` — a partition in a text that starts later.
* `Comment.Scanned` — the comment of the repairer is one the scanner finds.
* `Change.KeepsComment` — what a change leaves is one comment, and no change of the
  partitioning is reported.

## Main results

* `IsPartition.transfer` — a comment or a tag depends on its own characters only.
* `replace_comment_partitions` — **a comment can be replaced without changing the other
  partitions.**
* `comment_stays_scanned` — **the comment that is repaired is the one that is scanned**,
  over any sequence of changes.
-/

namespace SilverTree

namespace XMLPartitionScanner

/-! ### The characters a partition depends on -/

theorem occursAt_iff {sequence text : Text} {p : ℕ} :
    OccursAt sequence text p ↔ ∀ k, k < sequence.length → text[p + k]? = sequence[k]? := by
  rw [OccursAt, List.prefix_iff_getElem?]
  refine forall₂_congr fun k hk => ?_
  rw [List.getElem?_drop, List.getElem?_eq_getElem hk]

/-- A sequence is also where another text has the same characters. -/
theorem OccursAt.transfer {sequence text text' : Text} {p p' : ℕ} (h : OccursAt sequence text p)
    (hagree : ∀ k, k < sequence.length → text'[p' + k]? = text[p + k]?) :
    OccursAt sequence text' p' := by
  rw [occursAt_iff] at h ⊢
  intro k hk
  rw [hagree k hk, h k hk]

/-- **A comment or a tag depends on its own characters only.** -/
theorem IsPartition.transfer {text text' : Text} {token : PartitionToken} {s s' len : ℕ}
    (h : IsPartition text token s (s + len))
    (hagree : ∀ k, k < len → text'[s' + k]? = text[s + k]?) :
    IsPartition text' token s' (s' + len) := by
  generalize hstop : s + len = stop at h
  cases h with
  | @comment _ q hs hq =>
    have hle := hq.le
    have hlen : s' + len = (s' + (q - s)) + 3 := by omega
    have hend : commentRule.endSequence.length = 3 := rfl
    rw [hlen]
    refine .comment (hs.transfer fun k hk => ?_) ⟨by omega, hq.found.transfer ?_, ?_⟩
    · have hstart : commentRule.startSequence.length = 4 := rfl
      exact hagree k (by omega)
    · intro k hk
      rw [Nat.add_assoc, hagree (q - s + k) (by omega), ← Nat.add_assoc,
        Nat.add_sub_cancel' (by omega)]
    · -- an earlier end would be one in the other text
      intro r hr hrq hoccurs
      refine hq.first (s + (r - s')) (by omega) (by omega) (hoccurs.transfer ?_)
      intro k hk
      rw [Nat.add_assoc, ← hagree (r - s' + k) (by omega), ← Nat.add_assoc,
        Nat.add_sub_cancel' (by omega)]
  | @tag _ q hlt hother hq =>
    have hle := hq.le
    have hlen : s' + len = (s' + (q - s)) + 1 := by omega
    rw [hlen]
    refine .tag ?_ ?_ ⟨by omega, ?_, ?_⟩
    · have hzero := hagree 0 (by omega)
      rw [Nat.add_zero, Nat.add_zero] at hzero
      rw [hzero, hlt]
    · rw [hagree 1 (by omega)]
      exact hother
    · rw [hagree (q - s) (by omega), Nat.add_sub_cancel' (by omega), hq.found]
    · intro r hr hrq
      have hback := hagree (r - s') (by omega)
      rw [Nat.add_sub_cancel' (by omega)] at hback
      rw [hback]
      exact hq.first _ (by omega) (by omega)

/-- Where a sequence occurs there is a first one. -/
theorem exists_firstAt {sequence text : Text} {p q : ℕ} (hpq : p ≤ q)
    (h : OccursAt sequence text q) : ∃ q', FirstAt sequence text p q' := by
  have hex : ∃ q', p ≤ q' ∧ OccursAt sequence text q' := ⟨q, hpq, h⟩
  refine ⟨Nat.find hex, (Nat.find_spec hex).1, (Nat.find_spec hex).2, fun r hpr hr hoccurs => ?_⟩
  exact Nat.find_min hex hr ⟨hpr, hoccurs⟩

theorem exists_firstGt {text : Text} {p q : ℕ} (hpq : p ≤ q) (h : text[q]? = some gt) :
    ∃ q', FirstGt text p q' := by
  have hex : ∃ q', p ≤ q' ∧ text[q']? = some gt := ⟨q, hpq, h⟩
  refine ⟨Nat.find hex, (Nat.find_spec hex).1, (Nat.find_spec hex).2, fun r hpr hr hgt => ?_⟩
  exact Nat.find_min hex hr ⟨hpr, hgt⟩

/-! ### Texts after one another -/

/-- A part of a text that starts `n` characters later. -/
def shiftPart (n : ℕ) (part : PartitionToken × ℕ × ℕ) : PartitionToken × ℕ × ℕ :=
  (part.1, n + part.2.1, n + part.2.2)

theorem getElem?_append_add (x b : Text) (k : ℕ) : (x ++ b)[x.length + k]? = b[k]? := by
  rw [List.getElem?_append_right (Nat.le_add_right ..), Nat.add_sub_cancel_left]

theorem IsPartition.exists_len {text : Text} {token : PartitionToken} {s stop : ℕ}
    (h : IsPartition text token s stop) : ∃ len, stop = s + len :=
  ⟨stop - s, (Nat.add_sub_cancel' (Nat.le_of_lt h.start_lt)).symm⟩

theorem IsPartition.shift {b : Text} {token : PartitionToken} {s stop : ℕ} (x : Text)
    (h : IsPartition b token s stop) :
    IsPartition (x ++ b) token (x.length + s) (x.length + stop) := by
  obtain ⟨len, rfl⟩ := h.exists_len
  rw [← Nat.add_assoc]
  refine h.transfer fun k _ => ?_
  rw [Nat.add_assoc, getElem?_append_add]

/-- What starts in a text starts in its end. -/
theorem starts_append_iff {x b : Text} {r : ℕ} :
    Starts (x ++ b) (x.length + r) ↔ Starts b r := by
  constructor
  · rintro ⟨token, stop, h⟩
    obtain ⟨len, rfl⟩ := h.exists_len
    refine ⟨token, r + len, h.transfer fun k _ => ?_⟩
    rw [Nat.add_assoc, getElem?_append_add]
  · rintro ⟨token, stop, h⟩
    exact ⟨token, _, h.shift x⟩

/-- **The end of a text is divided as it would be alone.** -/
theorem Partitioned.shift {b : Text} {s : ℕ} {parts : List (PartitionToken × ℕ × ℕ)} (x : Text)
    (h : Partitioned b s parts) :
    Partitioned (x ++ b) (x.length + s) (parts.map (shiftPart x.length)) := by
  induction h with
  | done hdone =>
    refine .done fun r hr => ?_
    obtain ⟨k, rfl⟩ : ∃ k, r = x.length + k := ⟨r - x.length, by omega⟩
    rw [starts_append_iff]
    exact hdone k (by omega)
  | @next s r stop token rest hr hbefore hpart _ ih =>
    have hno : ∀ r', x.length + s ≤ r' → r' < x.length + r → ¬ Starts (x ++ b) r' := by
      intro r' hr' hlt
      obtain ⟨k, rfl⟩ : ∃ k, r' = x.length + k := ⟨r' - x.length, by omega⟩
      rw [starts_append_iff]
      exact hbefore k (by omega) (by omega)
    exact .next (Nat.add_le_add_left hr _) hno (hpart.shift x) ih

/-! ### Before a place -/

theorem Partitioned.isPartition_of_mem {text : Text} {s : ℕ}
    {parts : List (PartitionToken × ℕ × ℕ)} (h : Partitioned text s parts) :
    ∀ part ∈ parts, IsPartition text part.1 part.2.1 part.2.2 := by
  induction h with
  | done _ => exact fun part hmem => absurd hmem List.not_mem_nil
  | next _ _ hpart _ ih =>
    intro part hmem
    rcases List.mem_cons.mp hmem with rfl | hmem
    · exact hpart
    · exact ih part hmem

/-- Where a part starts, no part is cut. -/
theorem Partitioned.outside_start {text : Text} {s : ℕ}
    {parts : List (PartitionToken × ℕ × ℕ)} (h : Partitioned text s parts) :
    ∀ part ∈ parts, ∀ part' ∈ parts, part.2.1 ≤ part'.2.1 ∨ part'.2.2 ≤ part.2.1 := by
  induction h with
  | done _ => exact fun part hmem => absurd hmem List.not_mem_nil
  | @next s r stop token rest _ _ hpart hrest ih =>
    have hlt := hpart.start_lt
    intro part hmem part' hmem'
    rcases List.mem_cons.mp hmem with rfl | hmem
    · rcases List.mem_cons.mp hmem' with rfl | hmem'
      · exact Or.inl (Nat.le_refl _)
      · have hle := hrest.le_start part' hmem'
        exact Or.inl (show r ≤ part'.2.1 by omega)
    · rcases List.mem_cons.mp hmem' with rfl | hmem'
      · exact Or.inr (hrest.le_start part hmem)
      · exact ih part hmem part' hmem'

/-- **Before a place where no part is cut**, another text with the same characters is
divided in the same way, if nothing starts there that did not before. -/
theorem Partitioned.before {text text' : Text} {n s : ℕ}
    {parts rest' : List (PartitionToken × ℕ × ℕ)} (h : Partitioned text s parts) (hs : s ≤ n)
    (hagree : ∀ q, q < n → text'[q]? = text[q]?)
    (hstarts : ∀ r, r < n → Starts text' r → Starts text r)
    (houtside : ∀ part ∈ parts, n ≤ part.2.1 ∨ part.2.2 ≤ n) (hrest' : Partitioned text' n rest') :
    Partitioned text' s ((parts.filter fun part => part.2.2 ≤ n) ++ rest') := by
  induction h with
  | done hdone =>
    refine hrest'.skip hs fun r hr hrn hstart => ?_
    exact hdone r hr (hstarts r hrn hstart)
  | @next s r stop token rest hr hbefore hpart hrest ih =>
    have hlt := hpart.start_lt
    have hbefore' : ∀ r', s ≤ r' → r' < r → r' < n → ¬ Starts text' r' :=
      fun r' hr' hlt' hn hstart => hbefore r' hr' hlt' (hstarts r' hn hstart)
    rcases houtside _ (List.mem_cons_self ..) with hle | hle
    · -- all parts from here on are after the place
      have hle : n ≤ r := hle
      have hnone : ((token, r, stop) :: rest).filter (fun part => part.2.2 ≤ n) = [] := by
        rw [List.filter_eq_nil_iff]
        intro part hmem
        rcases List.mem_cons.mp hmem with rfl | hmem
        · simpa using (show n < stop by omega)
        · have hstart := hrest.le_start part hmem
          have hlt' := (hrest.isPartition_of_mem part hmem).start_lt
          simpa using (show n < part.2.2 by omega)
      rw [hnone]
      exact hrest'.skip hs fun r' hr' hn => hbefore' r' hr' (by omega) hn
    · have hle : stop ≤ n := hle
      rw [List.filter_cons_of_pos (by simpa using hle), List.cons_append]
      obtain ⟨len, rfl⟩ := hpart.exists_len
      refine .next hr (fun r' hr' hlt' => hbefore' r' hr' hlt' (by omega)) ?_
        (ih hle fun part hmem => houtside part (List.mem_cons_of_mem _ hmem))
      exact hpart.transfer fun k hk => hagree _ (by omega)

/-! ### Replacing a comment -/

/-- What starts before a comment of a text starts there, too, if it starts in another text
with the same characters up to the `<` of the comment. -/
theorem starts_of_comment_after {text text' : Text} {n stop : ℕ}
    (hagree : ∀ q, q ≤ n → text'[q]? = text[q]?) (hcomment : IsPartition text .xmlComment n stop)
    {r : ℕ} (hr : r < n) (h : Starts text' r) : Starts text r := by
  obtain ⟨token, stop', hpart⟩ := h
  cases hpart with
  | comment hs _ =>
    -- the `<` of the comment is none of the characters `!--`
    have hin : r + 3 < n := by
      by_contra hout
      have hchars := occursAt_iff.mp hs
      have hn : text'[n]? = some lt := by rw [hagree n (Nat.le_refl n), hcomment.lt_at]
      obtain rfl | rfl | rfl : n = r + 1 ∨ n = r + 2 ∨ n = r + 3 := by omega
      · rw [hchars 1 (by decide)] at hn
        exact absurd hn (by decide)
      · rw [hchars 2 (by decide)] at hn
        exact absurd hn (by decide)
      · rw [hchars 3 (by decide)] at hn
        exact absurd hn (by decide)
    cases hcomment with
    | comment _ hq =>
      have hle := hq.le
      obtain ⟨q, hfirst⟩ := exists_firstAt (show r + 4 ≤ _ by omega) hq.found
      refine ⟨_, _, .comment (hs.transfer fun k hk => ?_) hfirst⟩
      have hlength : commentRule.startSequence.length = 4 := rfl
      exact (hagree _ (by omega)).symm
  | tag hlt hother _ =>
    obtain ⟨q, hle, -, hgt⟩ := hcomment.gt_before
    obtain ⟨q', hfirst⟩ := exists_firstGt (show r + 2 ≤ q by omega) hgt
    rw [hagree r (by omega)] at hlt
    rw [hagree (r + 1) hr] at hother
    exact ⟨_, _, .tag hlt hother hfirst⟩

theorem exists_partitioned (text : Text) :
    ∃ tokens, tokensFrom text (text.length + 1) 0 = some tokens ∧
      Partitioned text 0 (partitionsOf tokens) := by
  obtain ⟨tokens, htokens, -⟩ := tokensFrom_reaches_end text text.length 0 (by omega)
  exact ⟨tokens, htokens, (tokensFrom_run _ 0 tokens (Nat.zero_le _) htokens).1⟩

/-- What the scanner finds is a comment or a tag of the text. -/
theorem isPartition_of_tokensFrom {text : Text} {tokens : List (PartitionToken × ℕ × ℕ)}
    (htokens : tokensFrom text (text.length + 1) 0 = some tokens) :
    ∀ part ∈ partitionsOf tokens, IsPartition text part.1 part.2.1 part.2.2 :=
  (tokensFrom_run _ 0 tokens (Nat.zero_le _) htokens).1.isPartition_of_mem

section Replace

variable {a c c' b : Text} {token' : PartitionToken}

/-- One partition and what follows it. -/
theorem partitioned_after (h : IsPartition (a ++ c ++ b) token' a.length (a ++ c).length)
    {after : List (PartitionToken × ℕ × ℕ)} (hafter : Partitioned b 0 after) :
    Partitioned (a ++ c ++ b) a.length
      ((token', a.length, (a ++ c).length) :: after.map (shiftPart (a ++ c).length)) := by
  refine .next (Nat.le_refl _) (fun r hr hlt => absurd hr (Nat.not_le.mpr hlt)) h ?_
  exact hafter.shift (a ++ c)

/-- A text that is one partition is one in a longer text. -/
theorem IsPartition.embed (h : IsPartition c' token' 0 c'.length) :
    IsPartition (a ++ c' ++ b) token' a.length (a ++ c').length := by
  have hlen : c'.length = 0 + c'.length := (Nat.zero_add _).symm
  rw [hlen] at h
  rw [List.length_append]
  refine h.transfer fun k hk => ?_
  rw [List.append_assoc, getElem?_append_add, Nat.zero_add, List.getElem?_append_left hk]

/-- **Replacing a comment** by a comment or a tag leaves the parts before it and moves those
after it. -/
theorem Partitioned.replace_comment {parts : List (PartitionToken × ℕ × ℕ)}
    (h : Partitioned (a ++ c ++ b) 0 parts)
    (hmem : (.xmlComment, a.length, (a ++ c).length) ∈ parts)
    (hnew : IsPartition c' token' 0 c'.length) :
    ∃ before after, Partitioned b 0 after ∧
      parts = before ++ (.xmlComment, a.length, (a ++ c).length) ::
        after.map (shiftPart (a ++ c).length) ∧
      Partitioned (a ++ c' ++ b) 0 (before ++ (token', a.length, (a ++ c').length) ::
        after.map (shiftPart (a ++ c').length)) := by
  obtain ⟨tokens, -, hafter⟩ := exists_partitioned b
  have hcomment : IsPartition (a ++ c ++ b) .xmlComment a.length (a ++ c).length :=
    h.isPartition_of_mem _ hmem
  have hembed : IsPartition (a ++ c' ++ b) token' a.length (a ++ c').length := hnew.embed
  have hleft : ∀ x : Text, ∀ q, q < a.length → (a ++ x ++ b)[q]? = a[q]? := by
    intro x q hq
    rw [List.append_assoc, List.getElem?_append_left hq]
  have hagree : ∀ q, q ≤ a.length → (a ++ c' ++ b)[q]? = (a ++ c ++ b)[q]? := by
    intro q hq
    rcases Nat.lt_or_eq_of_le hq with hlt | rfl
    · rw [hleft c' q hlt, hleft c q hlt]
    · rw [hembed.lt_at, hcomment.lt_at]
  have houtside := h.outside_start _ hmem
  refine ⟨parts.filter fun part => part.2.2 ≤ a.length, partitionsOf tokens, hafter, ?_, ?_⟩
  · exact h.unique (h.before (Nat.zero_le _) (fun _ _ => rfl) (fun _ _ => id) houtside
      (partitioned_after hcomment hafter))
  · exact h.before (Nat.zero_le _) (fun q hq => hagree q (Nat.le_of_lt hq))
      (fun r hr => starts_of_comment_after hagree hcomment hr) houtside
      (partitioned_after hembed hafter)

/-- **A comment can be replaced without changing the other partitions**: when the scanner
finds `c` as a comment, and in the text `c'` alone it finds just one comment or one tag (in
`<>` it does not), then it finds `c'` in its place, the same partitions before it, and those
of the text after it. -/
theorem replace_comment_partitions {tokens : List (PartitionToken × ℕ × ℕ)}
    (htokens : tokensFrom (a ++ c ++ b) ((a ++ c ++ b).length + 1) 0 = some tokens)
    (hmem : (.xmlComment, a.length, (a ++ c).length) ∈ partitionsOf tokens)
    (hnew : IsPartition c' token' 0 c'.length) :
    ∃ tokens' before after,
      tokensFrom (a ++ c' ++ b) ((a ++ c' ++ b).length + 1) 0 = some tokens' ∧
      Partitioned b 0 after ∧
      partitionsOf tokens = before ++ (.xmlComment, a.length, (a ++ c).length) ::
        after.map (shiftPart (a ++ c).length) ∧
      partitionsOf tokens' = before ++ (token', a.length, (a ++ c').length) ::
        after.map (shiftPart (a ++ c').length) := by
  have hparts := (tokensFrom_run _ 0 tokens (Nat.zero_le _) htokens).1
  obtain ⟨before, after, hafter, hold, hpartitioned⟩ := hparts.replace_comment hmem hnew
  obtain ⟨tokens', htokens', hparts'⟩ := exists_partitioned (a ++ c' ++ b)
  exact ⟨tokens', before, after, htokens', hafter, hold, hparts'.unique hpartitioned⟩

end Replace

/-- In `<a><!--x--><b` the comment becomes `<!---->`. -/
theorem replace_comment_partitions_shorter :
    ∃ tokens' before after,
      tokensFrom ([lt, 97, gt] ++ [lt, 33, 45, 45, 45, 45, gt] ++ [lt, 98]) 13 0 = some tokens' ∧
      Partitioned [lt, 98] 0 after ∧
      [(PartitionToken.xmlTag, 0, 3), (.xmlComment, 3, 11)] =
        before ++ (.xmlComment, 3, 11) :: after.map (shiftPart 11) ∧
      partitionsOf tokens' = before ++ (.xmlComment, 3, 10) :: after.map (shiftPart 10) := by
  have htokens : tokensFrom ([lt, 97, gt] ++ [lt, 33, 45, 45, 120, 45, 45, gt] ++ [lt, 98]) 14 0
      = some [(.xmlTag, 0, 3), (.xmlComment, 3, 11), (.other, 11, 13)] := by decide
  have hnew : tokensFrom [lt, 33, 45, 45, 45, 45, gt] 8 0 = some [(.xmlComment, 0, 7)] := by decide
  exact replace_comment_partitions htokens (by decide)
    (isPartition_of_tokensFrom hnew (.xmlComment, 0, 7) (by decide))

end XMLPartitionScanner

/-! ### The comment that is repaired -/

namespace NonRuleBasedDamagerRepairer

open XMLPartitionScanner

/-- The scanner finds the comment. -/
def Comment.Scanned (c : Comment) : Prop :=
  ∃ tokens, tokensFrom c.text (c.text.length + 1) 0 = some tokens ∧
    (.xmlComment, c.offset, c.offset + c.length) ∈ partitionsOf tokens

/-- What a change leaves of the comment, its ends included. -/
def Change.left (ch : Change) (c : Comment) : Text :=
  slice (ch.applyTo c.text) c.offset (c.length - ch.length + ch.inserted.length)

/-- What a change leaves of the comment is one comment to the scanner, and no change of the
partitioning is reported. -/
structure Change.KeepsComment (ch : Change) (c : Comment) : Prop where
  unchanged : ch.changed = none
  comment : IsPartition (ch.left c) .xmlComment 0 (ch.left c).length

/-- A text is what precedes a slice of it, the slice and what follows it. -/
theorem take_append_slice_append_drop (text : Text) (offset length : ℕ) :
    text.take offset ++ slice text offset length ++ text.drop (offset + length) = text := by
  rw [slice, List.append_assoc, ← List.drop_drop, List.take_append_drop, List.take_append_drop]

theorem Comment.length_take (c : Comment) : (c.text.take c.offset).length = c.offset := by
  have hin := c.inDocument
  rw [List.length_take]
  omega

theorem length_slice {text : Text} {offset length : ℕ} (h : offset + length ≤ text.length) :
    (slice text offset length).length = length := by
  rw [slice, List.length_take, List.length_drop]
  omega

section Inside

variable {c : Comment} {ch : Change}

/-- A change inside the comment leaves what stands before and after it. -/
theorem Change.applyTo_eq (h : ch.Inside c) :
    ch.applyTo c.text
      = c.text.take c.offset ++ ch.left c ++ c.text.drop (c.offset + c.length) := by
  have hstart := h.start_le
  have hend := h.le_end
  have hin := c.inDocument
  have htake : (ch.applyTo c.text).take c.offset = c.text.take c.offset := by
    have hle : c.offset ≤ (c.text.take ch.offset).length := by
      rw [List.length_take]
      omega
    rw [applyTo, List.append_assoc, List.take_append_of_le_length hle, List.take_take,
      Nat.min_eq_left hstart]
  have hdrop : (ch.applyTo c.text).drop (c.offset + (c.length - ch.length + ch.inserted.length))
      = c.text.drop (c.offset + c.length) := by
    have hlen : (c.text.take ch.offset ++ ch.inserted).length
        = ch.offset + ch.inserted.length := by
      rw [List.length_append, List.length_take]
      omega
    have hsplit : c.offset + (c.length - ch.length + ch.inserted.length)
        = (ch.offset + ch.inserted.length)
          + (c.offset + c.length - (ch.offset + ch.length)) := by omega
    rw [applyTo, hsplit, ← List.drop_drop, List.drop_left' hlen, List.drop_drop]
    congr 1
    omega
  rw [← htake, ← hdrop, left, take_append_slice_append_drop]

/-- **One change** that leaves a comment: the scanner finds it where the repairer looks. -/
theorem Comment.Scanned.change (attr : TextAttribute) (h : c.Scanned)
    (hkeeps : ch.Inside c → ch.KeepsComment c) : (c.change attr ch).Scanned := by
  unfold Comment.change
  split
  · next hinside =>
    obtain ⟨hunchanged, hcomment⟩ := hkeeps hinside
    obtain ⟨tokens, htokens, hmem⟩ := h
    have hplace : ch.comment c = (c.offset, c.length - ch.length + ch.inserted.length) := by
      rw [Change.comment, hunchanged]
      rfl
    have hleft : (ch.left c).length = c.length - ch.length + ch.inserted.length := by
      refine length_slice ?_
      have hin := hinside.inDocument
      rwa [hplace] at hin
    have hparts := (tokensFrom_run _ 0 tokens (Nat.zero_le _) htokens).1
    rw [← take_append_slice_append_drop c.text c.offset c.length] at hparts
    have hold : (c.text.take c.offset ++ slice c.text c.offset c.length).length
        = c.offset + c.length := by
      rw [List.length_append, c.length_take, length_slice c.inDocument]
    have hnew : (c.text.take c.offset ++ ch.left c).length
        = c.offset + (c.length - ch.length + ch.inserted.length) := by
      rw [List.length_append, c.length_take, hleft]
    obtain ⟨before, after, -, -, hafter⟩ :=
      hparts.replace_comment (by rw [c.length_take, hold]; exact hmem) hcomment
    rw [← Change.applyTo_eq hinside, c.length_take, hnew] at hafter
    obtain ⟨tokens', htokens', hparts'⟩ := exists_partitioned (ch.applyTo c.text)
    refine ⟨tokens', htokens', ?_⟩
    rw [hparts'.unique hafter]
    simp [hplace]
  · exact h

end Inside

/-- **The comment that is repaired is the one that is scanned**, and it stays styled: over
any sequence of changes that each leave it a comment, and with which no change of the
partitioning is reported, the scanner finds it where the repairer puts its style. -/
theorem comment_stays_scanned (attr : TextAttribute) {c : Comment} (hscanned : c.Scanned)
    (hstyled : c.Styled attr) {changes : List Change}
    (hkeeps : Run.EachStep (Comment.change attr)
      (fun c ch => ch.Inside c → ch.KeepsComment c) c changes) :
    Run.Always (Comment.change attr) (fun c => c.Scanned ∧ c.Styled attr) c changes :=
  Run.always_of_eachStep (fun _ ch h hkeep => ⟨h.1.change attr hkeep, h.2.change ch⟩)
    ⟨hscanned, hstyled⟩ hkeeps

/-- Typing a line end and a `b` after the `a` of `<!--a-->`, and then deleting the `a`. -/
theorem comment_stays_scanned_typing :
    Run.Always (Comment.change commentAttribute)
      (fun c => c.Scanned ∧ c.Styled commentAttribute) shortComment
      [⟨5, 0, [10, 98], fun _ => none, none⟩, ⟨4, 1, [], fun _ => none, none⟩] := by
  refine comment_stays_scanned commentAttribute ⟨[(.xmlComment, 0, 8)], by decide, by decide⟩
    (fun _ _ _ => rfl) ⟨fun _ => ⟨rfl, ?_⟩, fun _ => ⟨rfl, ?_⟩, trivial⟩
  · have htokens : tokensFrom [60, 33, 45, 45, 97, 10, 98, 45, 45, 62] 11 0
        = some [(.xmlComment, 0, 10)] := by decide
    exact isPartition_of_tokensFrom htokens (.xmlComment, 0, 10) (by decide)
  · have htokens : tokensFrom [60, 33, 45, 45, 10, 98, 45, 45, 62] 10 0
        = some [(.xmlComment, 0, 9)] := by decide
    exact isPartition_of_tokensFrom htokens (.xmlComment, 0, 9) (by decide)

end NonRuleBasedDamagerRepairer

end SilverTree
