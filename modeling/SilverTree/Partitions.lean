import SilverTree.TagRule

/-!
# The partitions of a document

What the partition scanner finds: a document is divided into comments, from `<!--` to the
next `-->`, tags, from a `<` that no `!` and no `?` follows to a `>`, and the text between
them.

A tag is meant here as the tag rule sees it, which does not take a `>` right after the `<`
for its end: `<>` is no tag, and `<>;<a>` is one.  With tags that end at the first `>` the
scanner is wrong on these texts.  Neither rule of the scanner gives back all it has read
when it fails: a tag that does not end costs one character more than it should, a comment
that does not end costs three.  No comment, and no tag in this sense, is lost that way.

## Main definitions

* `IsPartition`, `Partitioned` — the comments and the tags of a text, where a `>` right
  after the `<` does not end a tag, and the division of a text into them from left to right.

## Main results

* `nextToken_cases` — what the scanner does, at every offset.
* `tokensFrom_partitioned` — **the scanner finds these comments and tags in every text** and
  leaves nothing out but a `<` at its end.
* `tokensFrom_restart` — **scanning again from an offset outside the partitions finds the
  partitions after it.**
-/

namespace SilverTree

namespace XMLPartitionScanner

/-! ### Comments and tags -/

/-- A comment or a tag of the text, from `s` up to `stop`.  The search for the end of a tag
starts after the character that follows the `<`, as that of the tag rule does, so that a `>`
right after the `<` does not end the tag. -/
inductive IsPartition (text : Text) : PartitionToken → ℕ → ℕ → Prop
  | comment {s q : ℕ} : OccursAt commentRule.startSequence text s →
      FirstAt commentRule.endSequence text (s + 4) q → IsPartition text .xmlComment s (q + 3)
  | tag {s q : ℕ} : text[s]? = some lt → ¬ IsOther text[s + 1]? → FirstGt text (s + 2) q →
      IsPartition text .xmlTag s (q + 1)

/-- A comment or a tag starts at `s`. -/
def Starts (text : Text) (s : ℕ) : Prop := ∃ token stop, IsPartition text token s stop

variable {text : Text}

theorem IsPartition.start_lt {token : PartitionToken} {s stop : ℕ}
    (h : IsPartition text token s stop) : s < stop := by
  cases h with
  | comment _ hq =>
    have hle := hq.le
    omega
  | tag _ _ hq =>
    have hle := hq.le
    omega

/-- The character after the `<` of a comment. -/
theorem exclamationMark_of_comment {s : ℕ} (h : OccursAt commentRule.startSequence text s) :
    text[s]? = some lt ∧ text[s + 1]? = some exclamationMark := by
  obtain ⟨hlt, hrest⟩ := occursAt_cons.mp h
  exact ⟨hlt, (occursAt_cons.mp hrest).1⟩

theorem IsPartition.lt_at {token : PartitionToken} {s stop : ℕ}
    (h : IsPartition text token s stop) : text[s]? = some lt := by
  cases h with
  | comment hs _ => exact (exclamationMark_of_comment hs).1
  | tag hlt _ _ => exact hlt

/-- Both end with a `>`, at least two characters after their start. -/
theorem IsPartition.gt_before {token : PartitionToken} {s stop : ℕ}
    (h : IsPartition text token s stop) : ∃ q, s + 2 ≤ q ∧ stop = q + 1 ∧ text[q]? = some gt := by
  cases h with
  | @comment _ q hs hq =>
    -- the end sequence is `-->`
    obtain ⟨-, hrest⟩ := occursAt_cons.mp hq.found
    obtain ⟨-, hrest⟩ := occursAt_cons.mp hrest
    have hle := hq.le
    exact ⟨q + 2, by omega, rfl, (occursAt_cons.mp hrest).1⟩
  | @tag _ q _ _ hq => exact ⟨q, hq.le, rfl, hq.found⟩

/-- What starts at an offset, and where it ends, is determined by the text. -/
theorem IsPartition.unique {token token' : PartitionToken} {s stop stop' : ℕ}
    (h : IsPartition text token s stop) (h' : IsPartition text token' s stop') :
    token = token' ∧ stop = stop' := by
  cases h with
  | comment hs hq =>
    have hother : IsOther text[s + 1]? := Or.inr (exclamationMark_of_comment hs).2
    cases h' with
    | comment _ hq' => exact ⟨rfl, by rw [hq.unique hq']⟩
    | tag _ hno _ => exact absurd hother hno
  | tag hlt hno hq =>
    cases h' with
    | comment hs _ => exact absurd (Or.inr (exclamationMark_of_comment hs).2) hno
    | tag _ _ hq' => exact ⟨rfl, by rw [hq.unique hq']⟩

theorem not_starts_of_ne {s : ℕ} (h : text[s]? ≠ some lt) : ¬ Starts text s := by
  intro hs
  obtain ⟨token, stop, hpart⟩ := hs
  exact h hpart.lt_at

/-- Where no `>` follows, nothing starts. -/
theorem not_starts_of_no_gt {s : ℕ} (h : ∀ q, s + 2 ≤ q → text[q]? ≠ some gt) :
    ¬ Starts text s := by
  intro hs
  obtain ⟨token, stop, hpart⟩ := hs
  obtain ⟨q, hle, -, hgt⟩ := hpart.gt_before
  exact h q hle hgt

/-! ### One token -/

/-- What the scanner does at an offset: it finds what starts there; or nothing starts, and
it passes characters at which nothing starts either; or nothing starts any more. -/
inductive NextToken (text : Text) (s : ℕ) : PartitionToken → ℕ → Prop
  | found {token : PartitionToken} {stop : ℕ} : IsPartition text token s stop →
      NextToken text s token stop
  | other {stop : ℕ} : s < stop → stop ≤ text.length → (∀ r, s ≤ r → r < stop → ¬ Starts text r) →
      NextToken text s .other stop
  | eof {stop : ℕ} : (∀ r, s ≤ r → ¬ Starts text r) →
      (text.length ≤ s ∨ s + 1 = text.length ∧ text[s]? = some lt) → NextToken text s .eof stop

/-- The tag rule at an offset, and the character that is read after it. -/
theorem nextToken_of_tag {s r : ℕ} (hcomment : evaluate commentRule text s = (some false, r)) :
    nextToken text s =
      match evaluate tagRule text r with
      | (none, q) => (none, q)
      | (some true, q) => (some .xmlTag, q)
      | (some false, q) =>
        match text[q]? with
        | none => (some .eof, q + 1)
        | some _ => (some .other, q + 1) := by
  simp only [nextToken, bind_run, hcomment]
  cases htag : evaluate tagRule text r with
  | mk found q =>
    cases found with
    | none => rfl
    | some found =>
      cases found with
      | true => rfl
      | false =>
        simp only [bind_run, read_run]
        cases text[q]? <;> rfl

/-- A rule that fails where it started leaves one character to be read. -/
theorem NextToken.one {s : ℕ} (hs : ¬ Starts text s) {c : JChar} (hc : text[s]? = some c) :
    NextToken text s .other (s + 1) := by
  have hlt : s < text.length := (List.getElem?_eq_some_iff.mp hc).1
  refine .other (Nat.lt_succ_self s) hlt ?_
  intro r hsr hr
  have heq : r = s := by omega
  rw [heq]
  exact hs

/-- **The scanner where no comment starts.** -/
theorem nextToken_cases_of_not_comment {s : ℕ}
    (hno : ¬ OccursAt commentRule.startSequence text s)
    (hcomment : evaluate commentRule text s = (some false, s)) :
    ∃ token q, nextToken text s = (some token, q) ∧ NextToken text s token q := by
  rw [nextToken_of_tag hcomment]
  have hnocomment : ∀ stop, ¬ IsPartition text .xmlComment s stop := by
    intro stop hpart
    cases hpart with
    | comment hs _ => exact hno hs
  rcases evaluate_tagRule text s with ⟨hnot, hrun⟩ | ⟨⟨hlt, hother⟩, ⟨q, hq, hrun⟩ | ⟨hnone, hrun⟩⟩
  · -- no tag starts here
    have hs : ¬ Starts text s := by
      intro hs
      obtain ⟨token, stop, hpart⟩ := hs
      cases hpart with
      | comment hs _ => exact hno hs
      | tag hlt hno' _ =>
        rcases hnot with hnot | hnot
        · exact hnot hlt
        · exact hno' hnot
    rw [hrun]
    cases hc : text[s]? with
    | none =>
      have hlen := List.getElem?_eq_none_iff.mp hc
      refine ⟨.eof, s + 1, by simp [hc], .eof ?_ (Or.inl hlen)⟩
      intro r hr
      exact not_starts_of_ne (by simp [List.getElem?_eq_none (Nat.le_trans hlen hr)])
    | some c => exact ⟨.other, s + 1, by simp [hc], .one hs hc⟩
  · rw [hrun]
    exact ⟨.xmlTag, q + 1, rfl, .found (.tag hlt hother hq)⟩
  · -- the tag does not end, so nothing after it does
    have hafter : ∀ r, s ≤ r → ¬ Starts text r := by
      intro r hr
      exact not_starts_of_no_gt fun q hq => hnone q (by omega)
    have hlen : s < text.length := (List.getElem?_eq_some_iff.mp hlt).1
    rw [hrun]
    cases hc : text[s + 1]? with
    | none =>
      have hend := List.getElem?_eq_none_iff.mp hc
      exact ⟨.eof, s + 2, by simp [hc], .eof hafter (Or.inr ⟨by omega, hlt⟩)⟩
    | some c =>
      have hlen' : s + 1 < text.length := (List.getElem?_eq_some_iff.mp hc).1
      exact ⟨.other, s + 2, by simp [hc],
        .other (by omega) (by omega) fun r hr _ => hafter r hr⟩

/-- **What the scanner does at an offset.** -/
theorem nextToken_cases (text : Text) (s : ℕ) :
    ∃ token q, nextToken text s = (some token, q) ∧ NextToken text s token q := by
  rcases commentRule_plain.evaluate_eq text (by decide) (by decide) s
    with ⟨hno, hrun⟩ | ⟨hs, ⟨q, hq, hrun⟩ | ⟨hnone, hrun⟩⟩
  · exact nextToken_cases_of_not_comment hno hrun
  · exact ⟨.xmlComment, q + 3, by simp [nextToken, hrun]; rfl, .found (.comment hs hq)⟩
  · -- the comment does not end: the tag rule is tried on its last `-`
    obtain ⟨hlt, hrest⟩ := occursAt_cons.mp hs
    obtain ⟨hmark, hrest⟩ := occursAt_cons.mp hrest
    obtain ⟨hdash, hrest⟩ := occursAt_cons.mp hrest
    have hdash' : text[s + 3]? = some 45 := (occursAt_cons.mp hrest).1
    have htag : evaluate tagRule text (s + 3) = (some false, s + 3) :=
      evaluate_not_lt (by rw [hdash']; decide)
    have hrun' : evaluate commentRule text s = (some false, s + 3) := hrun
    refine ⟨.other, s + 4, by simp [nextToken_of_tag hrun', htag, hdash'], ?_⟩
    refine .other (by omega) (hs.le (by decide)) ?_
    intro r hr hr'
    have hcases : r = s ∨ r = s + 1 ∨ r = s + 2 ∨ r = s + 3 := by omega
    rcases hcases with rfl | rfl | rfl | rfl
    · intro hstarts
      obtain ⟨token, stop, hpart⟩ := hstarts
      cases hpart with
      | comment _ hq => exact hnone _ hq.le hq.found
      | tag _ hother _ => exact hother (Or.inr hmark)
    · exact not_starts_of_ne (by rw [hmark]; decide)
    · exact not_starts_of_ne (by rw [hdash]; decide)
    · exact not_starts_of_ne (by rw [hdash']; decide)

/-! ### All tokens -/

/-- **The division of a text** from `s` on: the leftmost comment or tag, the leftmost one
after it, and so on until none starts any more. -/
inductive Partitioned (text : Text) : ℕ → List (PartitionToken × ℕ × ℕ) → Prop
  | done {s : ℕ} : (∀ r, s ≤ r → ¬ Starts text r) → Partitioned text s []
  | next {s r stop : ℕ} {token : PartitionToken} {rest : List (PartitionToken × ℕ × ℕ)} : s ≤ r →
      (∀ r', s ≤ r' → r' < r → ¬ Starts text r') → IsPartition text token r stop →
      Partitioned text stop rest → Partitioned text s ((token, r, stop) :: rest)

/-- Characters at which nothing starts can be left out. -/
theorem Partitioned.skip {s s' : ℕ} {parts : List (PartitionToken × ℕ × ℕ)} (hle : s ≤ s')
    (hno : ∀ r, s ≤ r → r < s' → ¬ Starts text r) (h : Partitioned text s' parts) :
    Partitioned text s parts := by
  cases h with
  | done hdone =>
    refine .done fun r hr => ?_
    rcases Nat.lt_or_ge r s' with hlt | hge
    · exact hno r hr hlt
    · exact hdone r hge
  | next hr hbefore hpart hrest =>
    refine .next (Nat.le_trans hle hr) (fun r' hr' hlt => ?_) hpart hrest
    rcases Nat.lt_or_ge r' s' with hlt' | hge
    · exact hno r' hr' hlt'
    · exact hbefore r' hge hlt

/-- A text is divided in one way only. -/
theorem Partitioned.unique {s : ℕ} {parts parts' : List (PartitionToken × ℕ × ℕ)}
    (h : Partitioned text s parts) (h' : Partitioned text s parts') : parts = parts' := by
  induction h generalizing parts' with
  | done hdone =>
    cases h' with
    | done _ => rfl
    | next hr _ hpart _ => exact absurd ⟨_, _, hpart⟩ (hdone _ hr)
  | @next s r stop token rest hr hbefore hpart hrest ih =>
    cases h' with
    | done hdone => exact absurd ⟨_, _, hpart⟩ (hdone r hr)
    | @next _ r' stop' token' rest' hr' hbefore' hpart' hrest' =>
      have hstart : r = r' := by
        rcases Nat.lt_trichotomy r r' with hlt | heq | hgt
        · exact absurd ⟨_, _, hpart⟩ (hbefore' r hr hlt)
        · exact heq
        · exact absurd ⟨_, _, hpart'⟩ (hbefore r' hr' hgt)
      subst hstart
      obtain ⟨rfl, rfl⟩ := hpart.unique hpart'
      rw [ih hrest']

theorem Partitioned.le_start {s : ℕ} {parts : List (PartitionToken × ℕ × ℕ)}
    (h : Partitioned text s parts) : ∀ part ∈ parts, s ≤ part.2.1 := by
  induction h with
  | done _ => exact fun part hmem => absurd hmem List.not_mem_nil
  | next hr _ hpart _ ih =>
    intro part hmem
    rcases List.mem_cons.mp hmem with rfl | hmem
    · exact hr
    · have hlt := hpart.start_lt
      have hle := ih part hmem
      omega

/-- **A division can be taken up again** at every offset that is not inside a part. -/
theorem Partitioned.restart {a s : ℕ} {parts : List (PartitionToken × ℕ × ℕ)}
    (h : Partitioned text a parts) (has : a ≤ s)
    (houtside : ∀ part ∈ parts, s ≤ part.2.1 ∨ part.2.2 ≤ s) :
    Partitioned text s (parts.filter fun part => s ≤ part.2.1) := by
  induction h with
  | done hdone => exact .done fun r hr => hdone r (Nat.le_trans has hr)
  | @next a r stop token rest hr hbefore hpart hrest ih =>
    have hlt := hpart.start_lt
    rcases houtside _ (List.mem_cons_self ..) with hle | hle
    · -- the part and all after it stay
      have hall : ((token, r, stop) :: rest).filter (fun part => s ≤ part.2.1)
          = (token, r, stop) :: rest := by
        rw [List.filter_eq_self]
        intro part hmem
        refine decide_eq_true ?_
        rcases List.mem_cons.mp hmem with rfl | hmem
        · exact hle
        · have hstart := hrest.le_start part hmem
          have hle' : s ≤ r := hle
          omega
      rw [hall]
      exact .next hle (fun r' hr' => hbefore r' (Nat.le_trans has hr')) hpart hrest
    · have hgone : ¬ s ≤ r := by
        have hle' : stop ≤ s := hle
        omega
      rw [List.filter_cons_of_neg (by simpa using hgone)]
      exact ih hle fun part hmem => houtside part (List.mem_cons_of_mem _ hmem)

/-- The comments and tags among the tokens. -/
def partitionsOf (tokens : List (PartitionToken × ℕ × ℕ)) : List (PartitionToken × ℕ × ℕ) :=
  tokens.filter fun t => t.1 ≠ .other

/-- Where the last of the tokens ends. -/
def coveredTo : ℕ → List (PartitionToken × ℕ × ℕ) → ℕ
  | s, [] => s
  | _, (_, _, stop) :: rest => coveredTo stop rest

theorem IsPartition.stop_le {token : PartitionToken} {s stop : ℕ}
    (h : IsPartition text token s stop) : stop ≤ text.length := by
  obtain ⟨q, -, rfl, hgt⟩ := h.gt_before
  exact (List.getElem?_eq_some_iff.mp hgt).1

theorem IsPartition.token_ne {token : PartitionToken} {s stop : ℕ}
    (h : IsPartition text token s stop) : token ≠ .other ∧ token ≠ .eof := by
  cases h with
  | comment _ _ => exact ⟨by decide, by decide⟩
  | tag _ _ _ => exact ⟨by decide, by decide⟩

/-- One token of a run. -/
theorem tokensFrom_succ {fuel s q : ℕ} {token : PartitionToken}
    {tokens : List (PartitionToken × ℕ × ℕ)} (hnext : nextToken text s = (some token, q))
    (hne : token ≠ .eof) (h : tokensFrom text (fuel + 1) s = some tokens) :
    ∃ rest, tokensFrom text fuel q = some rest ∧ tokens = (token, s, q) :: rest := by
  have hstep : tokensFrom text (fuel + 1) s
      = (tokensFrom text fuel q).map ((token, s, q) :: ·) := by
    rw [tokensFrom, hnext]
    cases token with
    | eof => exact absurd rfl hne
    | xmlComment => rfl
    | xmlTag => rfl
    | other => rfl
  rw [hstep] at h
  obtain ⟨rest, hrest, heq⟩ := Option.map_eq_some_iff.mp h
  exact ⟨rest, hrest, heq.symm⟩

/-- **A run of the scanner** finds the comments and tags, and covers the text up to its
end or up to a last `<`. -/
theorem tokensFrom_run : ∀ (fuel s : ℕ) (tokens : List (PartitionToken × ℕ × ℕ)),
    s ≤ text.length → tokensFrom text fuel s = some tokens →
    Partitioned text s (partitionsOf tokens) ∧
      (coveredTo s tokens = text.length ∨
        coveredTo s tokens + 1 = text.length ∧ text[coveredTo s tokens]? = some lt) := by
  intro fuel
  induction fuel with
  | zero =>
    intro s tokens _ h
    cases h
  | succ fuel ih =>
    intro s tokens hs h
    obtain ⟨token, q, hnext, hcase⟩ := nextToken_cases text s
    cases hcase with
    | found hpart =>
      obtain ⟨rest, hrest, rfl⟩ := tokensFrom_succ hnext hpart.token_ne.2 h
      obtain ⟨hparts, hcover⟩ := ih q rest hpart.stop_le hrest
      refine ⟨?_, hcover⟩
      rw [partitionsOf, List.filter_cons_of_pos (by simpa using hpart.token_ne.1)]
      exact .next (Nat.le_refl s) (fun r hr hr' => by omega) hpart hparts
    | other hlt hle hno =>
      obtain ⟨rest, hrest, rfl⟩ := tokensFrom_succ hnext (by decide) h
      obtain ⟨hparts, hcover⟩ := ih q rest hle hrest
      refine ⟨?_, hcover⟩
      rw [partitionsOf, List.filter_cons_of_neg (by simp)]
      exact hparts.skip (Nat.le_of_lt hlt) hno
    | eof hno hend =>
      rw [tokensFrom, hnext] at h
      cases h
      refine ⟨.done hno, ?_⟩
      rcases hend with hlen | hlast
      · exact Or.inl (Nat.le_antisymm hs hlen)
      · exact Or.inr hlast

/-- **The scanner finds the comments and the tags of every text**: its tokens follow each
other from the start of the text to its end, or to a `<` that is its last character, and
the comments and tags among them are those of the division from left to right, in which a
`>` right after the `<` does not end a tag. -/
theorem tokensFrom_partitioned (text : Text) :
    ∃ tokens, tokensFrom text (text.length + 1) 0 = some tokens ∧ Abut 0 tokens ∧
      (coveredTo 0 tokens = text.length ∨
        coveredTo 0 tokens + 1 = text.length ∧ text[coveredTo 0 tokens]? = some lt) ∧
      ∀ parts, Partitioned text 0 parts ↔ parts = partitionsOf tokens := by
  obtain ⟨tokens, htokens, habut⟩ := tokensFrom_reaches_end text text.length 0 (by omega)
  obtain ⟨hparts, hcover⟩ := tokensFrom_run _ 0 tokens (Nat.zero_le _) htokens
  refine ⟨tokens, htokens, habut, hcover, fun parts => ⟨fun h => h.unique hparts, ?_⟩⟩
  rintro rfl
  exact hparts

/-- **Scanning again from an offset that is not inside a comment or a tag** finds the
comments and tags after it, as scanning the whole text does. -/
theorem tokensFrom_restart {text : Text} {tokens : List (PartitionToken × ℕ × ℕ)} {s : ℕ}
    (htokens : tokensFrom text (text.length + 1) 0 = some tokens) (hs : s ≤ text.length)
    (houtside : ∀ part ∈ partitionsOf tokens, s ≤ part.2.1 ∨ part.2.2 ≤ s) :
    ∃ tokens', tokensFrom text (text.length + 1) s = some tokens' ∧
      partitionsOf tokens' = (partitionsOf tokens).filter fun part => s ≤ part.2.1 := by
  obtain ⟨tokens', htokens', -⟩ := tokensFrom_reaches_end text text.length s (by omega)
  obtain ⟨hparts, -⟩ := tokensFrom_run _ 0 tokens (Nat.zero_le _) htokens
  obtain ⟨hparts', -⟩ := tokensFrom_run _ s tokens' hs htokens'
  exact ⟨tokens', htokens', hparts'.unique (hparts.restart (Nat.zero_le s) houtside)⟩

/-- The text `<a><!--x--><b`. -/
def tagAndComment : Text := [lt, 97, gt, lt, 33, 45, 45, 120, 45, 45, gt, lt, 98]

/-- From the end of its tag, the comment is found again. -/
theorem tokensFrom_restart_comment :
    ∃ tokens', tokensFrom tagAndComment 14 3 = some tokens' ∧
      partitionsOf tokens' = [(.xmlComment, 3, 11)] := by
  have htokens : tokensFrom tagAndComment 14 0
      = some [(.xmlTag, 0, 3), (.xmlComment, 3, 11), (.other, 11, 13)] := by decide
  exact tokensFrom_restart htokens (by decide) (by decide)

end XMLPartitionScanner

end SilverTree
