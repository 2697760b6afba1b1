import SilverTree.EditorColors
import SilverTree.Run
import Mathlib.Data.List.Nodup

/-!
# Editors that come and go

Colours belong to the display, which all editors share, and an editor has to dispose what
it created.  Here editors are opened, asked for a reconciler any number of times, and
disposed, in every order.

## Main definitions

* `Editors`, `Editors.step` — the editors and the display.
* `Editors.Owns s i n` — editor `i` owns the five colours from number `n` on.
* `Editors.Inv` — who owns which colours, and which of them are disposed.

## Main results

* `Editors.Inv.step` — **every action keeps the invariant.**
* `Editors.five_colors_per_editor` — **five colours for each configured editor**, shared by
  all its reconcilers and by no other editor.
* `Editors.reconcilers_live_iff` — **when a reconciler is handed out with live colours.**
* `Editors.no_color_left_iff` — **when no colour is left behind.**
-/

namespace SilverTree

open XMLConfiguration XMLPartitionScanner

/-! ### The editors and the display -/

/-- `DeviceTreeEditor`; its colour manager is the one in its configuration. -/
structure DeviceTreeEditor where
  configuration : XMLConfiguration

/-- `new DeviceTreeEditor()`. -/
def DeviceTreeEditor.new : DeviceTreeEditor := ⟨.new .new⟩

/-- `DeviceTreeEditor.dispose`. -/
def DeviceTreeEditor.dispose (e : DeviceTreeEditor) (d : Display) : Display :=
  e.configuration.colorManager.dispose d

/-- Whether the editor has been asked for a reconciler. -/
def DeviceTreeEditor.isConfigured (e : DeviceTreeEditor) : Bool :=
  e.configuration.tagScanner.isSome

/-- The editors that were ever opened, in this order, and the display they share.  Two
history variables: the reconcilers that were handed out, with the editor that was asked, and
`disposedConfigured`, the editors that were disposed while they were configured.  A disposal
before the configuration has no colours to dispose and is not recorded. -/
structure Editors where
  display : Display
  editors : List DeviceTreeEditor
  handedOut : List (ℕ × PresentationReconciler)
  disposedConfigured : List ℕ

/-- What happens to the editors. -/
inductive EditorAction
  | openEditor
  /-- The platform asks for the reconciler. -/
  | configure (i : ℕ)
  /-- The platform asks for the double click strategy. -/
  | strategy (i : ℕ)
  | dispose (i : ℕ)
  deriving DecidableEq, Repr

namespace Editors

/-- No editor, and a display without colours. -/
def new : Editors := ⟨⟨[], []⟩, [], [], []⟩

/-- Run code of the configuration of an editor. -/
def runOn {α : Type} (s : Editors) (i : ℕ) (e : DeviceTreeEditor) (x : ConfigurationM α) :
    α × Editors :=
  let (a, c, d) := x (e.configuration, s.display)
  (a, { s with display := d, editors := s.editors.set i ⟨c⟩ })

@[simp] theorem runOn_handedOut {α : Type} (s : Editors) (i : ℕ) (e : DeviceTreeEditor)
    (x : ConfigurationM α) : (s.runOn i e x).2.handedOut = s.handedOut := rfl

@[simp] theorem runOn_disposedConfigured {α : Type} (s : Editors) (i : ℕ) (e : DeviceTreeEditor)
    (x : ConfigurationM α) : (s.runOn i e x).2.disposedConfigured = s.disposedConfigured := rfl

/-- One action; an editor that was never opened does nothing. -/
def step (s : Editors) : EditorAction → Editors
  | .openEditor => { s with editors := s.editors ++ [.new] }
  | .configure i =>
    match s.editors[i]? with
    | none => s
    | some e =>
      let (reconciler, s) := s.runOn i e getPresentationReconciler
      { s with handedOut := s.handedOut ++ [(i, reconciler)] }
  | .strategy i =>
    match s.editors[i]? with
    | none => s
    | some e => (s.runOn i e getDoubleClickStrategy).2
  | .dispose i =>
    match s.editors[i]? with
    | none => s
    | some e =>
      { s with
        display := e.dispose s.display
        disposedConfigured :=
          if e.isConfigured then i :: s.disposedConfigured else s.disposedConfigured }

/-- Editor `i` owns the colours from `n` on. -/
def Owns (s : Editors) (i n : ℕ) : Prop :=
  ∃ strategy, s.editors[i]? = some ⟨configuredFrom n strategy⟩

/-- How many editors have been configured. -/
def configured (s : Editors) : ℕ := s.editors.countP DeviceTreeEditor.isConfigured

/-- The editor is as new. -/
def Fresh (e : DeviceTreeEditor) : Prop :=
  ∃ strategy, e.configuration = ⟨strategy, none, none, .new⟩

/-- **The invariant**: an editor is as new, or it owns five colours; the owned colours are
those of the display, and the disposed ones are those of the editors that were disposed while
they were configured. -/
structure Inv (s : Editors) : Prop where
  created : s.display.created = (List.range s.configured).flatMap fun k => colorsFrom (5 * k)
  editor : ∀ i e, s.editors[i]? = some e → Fresh e ∨ ∃ n, s.Owns i n
  block : ∀ i n, s.Owns i n → ∃ k, k < s.configured ∧ n = 5 * k
  unique : ∀ i j n, s.Owns i n → s.Owns j n → i = j
  owner : ∀ k, k < s.configured → ∃ i, s.Owns i (5 * k)
  disposedConfigured : ∀ i ∈ s.disposedConfigured, ∃ n, s.Owns i n
  disposed : ∀ c, c ∈ s.display.disposed ↔
    ∃ i ∈ s.disposedConfigured, ∃ n, s.Owns i n ∧ c ∈ colorsFrom n
  handedOut : ∀ x ∈ s.handedOut, ∃ n, s.Owns x.1 n ∧ x.2 = reconcilerFrom n

theorem inv_new : new.Inv := by
  constructor <;> simp [new, configured, Owns]

/-- The colours of an editor are the ones its configuration shows. -/
theorem configuredFrom_inj {n n' : ℕ} {b b' : Bool}
    (h : configuredFrom n b = configuredFrom n' b') : n = n' := by
  have htag := congrArg XMLConfiguration.tagScanner h
  simp only [configuredFrom, tagScannerWith, Option.some.injEq, RuleBasedScanner.mk.injEq,
    TextAttribute.mk.injEq, Color.mk.injEq] at htag
  omega

theorem Owns.unique {s : Editors} {i n n' : ℕ} (h : s.Owns i n) (h' : s.Owns i n') : n = n' := by
  obtain ⟨b, hb⟩ := h
  obtain ⟨b', hb'⟩ := h'
  rw [hb] at hb'
  exact configuredFrom_inj (congrArg DeviceTreeEditor.configuration (Option.some.inj hb'))

theorem isConfigured_of_fresh {e : DeviceTreeEditor} (h : Fresh e) : e.isConfigured = false := by
  obtain ⟨b, hb⟩ := h
  rw [DeviceTreeEditor.isConfigured, hb]
  rfl

theorem not_fresh (n : ℕ) (b : Bool) : ¬ Fresh ⟨configuredFrom n b⟩ := by
  intro h
  have hconf := isConfigured_of_fresh h
  cases hconf

/-- What the invariant says depends on who owns which colours. -/
theorem Inv.of_owns {s s' : Editors} (h : s.Inv) (hown : ∀ i n, s'.Owns i n ↔ s.Owns i n)
    (hconf : s'.configured = s.configured) (hdisplay : s'.display = s.display)
    (hdisposedConf : s'.disposedConfigured = s.disposedConfigured)
    (heditor : ∀ i e, s'.editors[i]? = some e → Fresh e ∨ ∃ n, s.Owns i n)
    (hout : ∀ x ∈ s'.handedOut, ∃ n, s.Owns x.1 n ∧ x.2 = reconcilerFrom n) : s'.Inv := by
  constructor
  · rw [hdisplay, hconf]
    exact h.created
  · simpa only [hown] using heditor
  · simpa only [hown, hconf] using h.block
  · simpa only [hown] using h.unique
  · simpa only [hown, hconf] using h.owner
  · simpa only [hown, hdisposedConf] using h.disposedConfigured
  · simpa only [hown, hdisposedConf, hdisplay] using h.disposed
  · simpa only [hown] using hout

/-! ### Each action -/

theorem Inv.openEditor {s : Editors} (h : s.Inv) : (s.step .openEditor).Inv := by
  have hget : ∀ (i : ℕ) (e : DeviceTreeEditor),
      (s.editors ++ [DeviceTreeEditor.new])[i]? = some e →
      s.editors[i]? = some e ∨ e = DeviceTreeEditor.new := by
    intro i e he
    rcases Nat.lt_or_ge i s.editors.length with hlt | hge
    · exact Or.inl (by rwa [List.getElem?_append_left hlt] at he)
    · rw [List.getElem?_append_right hge] at he
      exact Or.inr (List.mem_singleton.mp (List.mem_of_getElem? he))
  refine h.of_owns ?_ ?_ rfl rfl ?_ h.handedOut
  · intro i n
    constructor
    · intro hown
      obtain ⟨b, hb⟩ := hown
      rcases hget i _ hb with hold | hnew
      · exact ⟨b, hold⟩
      · exact absurd ⟨false, congrArg DeviceTreeEditor.configuration hnew⟩ (not_fresh n b)
    · intro hown
      obtain ⟨b, hb⟩ := hown
      have hlt := (List.getElem?_eq_some_iff.mp hb).1
      exact ⟨b, (List.getElem?_append_left hlt).trans hb⟩
  · simp [step, configured, List.countP_append, DeviceTreeEditor.isConfigured,
      DeviceTreeEditor.new, XMLConfiguration.new]
  · intro i e he
    rcases hget i e he with hold | hnew
    · exact h.editor i e hold
    · exact Or.inl ⟨false, congrArg DeviceTreeEditor.configuration hnew⟩

/-- Who owns colours after an editor has been changed. -/
theorem owns_set {s : Editors} {i : ℕ} {e : DeviceTreeEditor} (he : s.editors[i]? = some e)
    {s' : Editors} {e' : DeviceTreeEditor} (hset : s'.editors = s.editors.set i e') (j n : ℕ) :
    s'.Owns j n ↔ (j = i ∧ ∃ b, e' = ⟨configuredFrom n b⟩) ∨ (j ≠ i ∧ s.Owns j n) := by
  have hlt := (List.getElem?_eq_some_iff.mp he).1
  unfold Owns
  rw [hset]
  by_cases hj : j = i
  · subst hj
    simp [List.getElem?_set_self hlt]
  · simp [List.getElem?_set_ne (Ne.symm hj), hj]

theorem getElem?_set_cases {es : List DeviceTreeEditor} {i j : ℕ} {e' e : DeviceTreeEditor}
    (h : (es.set i e')[j]? = some e) : e = e' ∨ es[j]? = some e := by
  by_cases hj : j = i
  · subst hj
    have hlt : j < es.length := by
      have hlt' := (List.getElem?_eq_some_iff.mp h).1
      rwa [List.length_set] at hlt'
    rw [List.getElem?_set_self hlt] at h
    exact Or.inl (Option.some.inj h).symm
  · rw [List.getElem?_set_ne (Ne.symm hj)] at h
    exact Or.inr h

/-- The number of configured editors after an editor has been changed. -/
theorem configured_set {s : Editors} {i : ℕ} {e : DeviceTreeEditor} (he : s.editors[i]? = some e)
    {s' : Editors} {e' : DeviceTreeEditor} (hset : s'.editors = s.editors.set i e') :
    s'.configured + (if e.isConfigured then 1 else 0)
      = s.configured + if e'.isConfigured then 1 else 0 := by
  obtain ⟨hlt, rfl⟩ := List.getElem?_eq_some_iff.mp he
  have hpos : s.editors[i].isConfigured = true →
      0 < s.editors.countP DeviceTreeEditor.isConfigured :=
    fun hconf => List.countP_pos_iff.mpr ⟨_, List.getElem_mem hlt, hconf⟩
  rw [configured, configured, hset, List.countP_set hlt]
  split
  · rename_i hconf
    have := hpos hconf
    omega
  · omega

/-- An editor that stays as new, or keeps its colours. -/
inductive Same : DeviceTreeEditor → DeviceTreeEditor → Prop
  | fresh {e e' : DeviceTreeEditor} : Fresh e → Fresh e' → Same e e'
  | owner (n : ℕ) (b b' : Bool) : Same ⟨configuredFrom n b⟩ ⟨configuredFrom n b'⟩

/-- Such a change keeps the invariant. -/
theorem Inv.replace {s s' : Editors} (h : s.Inv) {i : ℕ} {e e' : DeviceTreeEditor}
    (he : s.editors[i]? = some e) (hsame : Same e e') (hset : s'.editors = s.editors.set i e')
    (hdisplay : s'.display = s.display)
    (hdisposedConf : s'.disposedConfigured = s.disposedConfigured)
    (hout : ∀ x ∈ s'.handedOut, ∃ n, s.Owns x.1 n ∧ x.2 = reconcilerFrom n) : s'.Inv := by
  have hcount := configured_set he hset
  have hown := owns_set he hset
  cases hsame with
  | fresh hold hnew =>
    have hnotOld : ∀ n, ¬ s.Owns i n := by
      intro n hn
      obtain ⟨b, hb⟩ := hn
      rw [he] at hb
      cases hb
      exact not_fresh n b hold
    refine h.of_owns ?_ ?_ hdisplay hdisposedConf ?_ hout
    · intro j n
      rw [hown]
      by_cases hj : j = i
      · subst hj
        refine iff_of_false ?_ (hnotOld n)
        simp only [true_and, ne_eq, not_true_eq_false, false_and, or_false]
        intro hex
        obtain ⟨b, rfl⟩ := hex
        exact not_fresh n b hnew
      · simp [hj]
    · simpa [isConfigured_of_fresh hold, isConfigured_of_fresh hnew] using hcount
    · intro j e'' hget
      rw [hset] at hget
      rcases getElem?_set_cases hget with rfl | hget
      · exact Or.inl hnew
      · exact h.editor j e'' hget
  | owner m b b' =>
    have hold : s.Owns i m := ⟨b, he⟩
    refine h.of_owns ?_ ?_ hdisplay hdisposedConf ?_ hout
    · intro j n
      rw [hown]
      by_cases hj : j = i
      · subst hj
        simp only [true_and, ne_eq, not_true_eq_false, false_and, or_false]
        constructor
        · intro hex
          obtain ⟨b'', hb''⟩ := hex
          rw [← configuredFrom_inj (congrArg DeviceTreeEditor.configuration hb'')]
          exact hold
        · intro hn
          rw [← hold.unique hn]
          exact ⟨b', rfl⟩
      · simp [hj]
    · exact Nat.add_right_cancel hcount
    · intro j e'' hget
      rw [hset] at hget
      by_cases hj : j = i
      · exact Or.inr ⟨m, by rw [hj]; exact hold⟩
      · rw [List.getElem?_set_ne (Ne.symm hj)] at hget
        exact h.editor j e'' hget

/-- The double click strategy has nothing to do with colours. -/
theorem Inv.strategy {s : Editors} (h : s.Inv) (i : ℕ) : (s.step (.strategy i)).Inv := by
  cases he : s.editors[i]? with
  | none => simpa [step, he] using h
  | some e =>
    rcases h.editor i e he with hfresh | ⟨n, b, hb⟩
    · obtain ⟨b, hb⟩ := hfresh
      have hstep : s.step (.strategy i) =
          { s with editors := s.editors.set i ⟨⟨true, none, none, .new⟩⟩ } := by
        simp [step, he, runOn, getDoubleClickStrategy, hb]
      rw [hstep]
      exact h.replace he (.fresh ⟨b, hb⟩ ⟨true, rfl⟩) rfl rfl rfl h.handedOut
    · rw [he] at hb
      cases hb
      have hstep : s.step (.strategy i) =
          { s with editors := s.editors.set i ⟨configuredFrom n true⟩ } := by
        simp [step, he, runOn, getDoubleClickStrategy, configuredFrom]
      rw [hstep]
      exact h.replace he (.owner n b true) rfl rfl rfl h.handedOut

theorem length_colors (m : ℕ) :
    ((List.range m).flatMap fun k => colorsFrom (5 * k)).length = 5 * m := by
  induction m with
  | zero => rfl
  | succ m ih =>
    rw [List.range_succ, List.flatMap_append, List.length_append, ih]
    simp [colorsFrom]
    omega

/-- One more owner, of the colours that follow the others. -/
theorem Inv.add_owner {s s' : Editors} (h : s.Inv) {i : ℕ} (hnot : ∀ n, ¬ s.Owns i n)
    (hown : ∀ j n, s'.Owns j n ↔ (j = i ∧ n = 5 * s.configured) ∨ s.Owns j n)
    (hconf : s'.configured = s.configured + 1)
    (hcreated : s'.display.created = s.display.created ++ colorsFrom (5 * s.configured))
    (hdisposed : s'.display.disposed = s.display.disposed)
    (hdisposedConf : s'.disposedConfigured = s.disposedConfigured)
    (heditor : ∀ j e, s'.editors[j]? = some e → Fresh e ∨ ∃ n, s'.Owns j n)
    (hout : ∀ x ∈ s'.handedOut, ∃ n, s'.Owns x.1 n ∧ x.2 = reconcilerFrom n) : s'.Inv := by
  have hnew : ∀ j n, s.Owns j n → n ≠ 5 * s.configured := by
    intro j n hn
    obtain ⟨k, hk, rfl⟩ := h.block j n hn
    omega
  have hrel : ∀ j ∈ s.disposedConfigured, ∀ n, s'.Owns j n ↔ s.Owns j n := by
    intro j hj n
    rw [hown]
    refine ⟨fun hn => ?_, Or.inr⟩
    rcases hn with ⟨rfl, -⟩ | hn
    · obtain ⟨n', hn'⟩ := h.disposedConfigured j hj
      exact absurd hn' (hnot n')
    · exact hn
  constructor
  · rw [hcreated, hconf, List.range_succ, List.flatMap_append, ← h.created]
    simp
  · exact heditor
  · intro j n hn
    rcases (hown j n).mp hn with ⟨-, rfl⟩ | hn
    · exact ⟨s.configured, by omega, rfl⟩
    · obtain ⟨k, hk, rfl⟩ := h.block j n hn
      exact ⟨k, by omega, rfl⟩
  · intro j j' n hn hn'
    rcases (hown j n).mp hn with ⟨rfl, rfl⟩ | hn
    · rcases (hown j' _).mp hn' with ⟨rfl, -⟩ | hn'
      · rfl
      · exact absurd rfl (hnew j' _ hn')
    · rcases (hown j' n).mp hn' with ⟨-, rfl⟩ | hn'
      · exact absurd rfl (hnew j _ hn)
      · exact h.unique j j' n hn hn'
  · intro k hk
    rcases Nat.lt_or_ge k s.configured with hlt | hge
    · obtain ⟨j, hj⟩ := h.owner k hlt
      exact ⟨j, (hown j _).mpr (Or.inr hj)⟩
    · have heq : k = s.configured := by omega
      exact ⟨i, (hown i _).mpr (Or.inl ⟨rfl, by rw [heq]⟩)⟩
  · intro j hj
    rw [hdisposedConf] at hj
    obtain ⟨n, hn⟩ := h.disposedConfigured j hj
    exact ⟨n, (hown j n).mpr (Or.inr hn)⟩
  · intro c
    rw [hdisposed, hdisposedConf, h.disposed]
    constructor
    · rintro ⟨j, hj, n, hn, hc⟩
      exact ⟨j, hj, n, (hrel j hj n).mpr hn, hc⟩
    · rintro ⟨j, hj, n, hn, hc⟩
      exact ⟨j, hj, n, (hrel j hj n).mp hn, hc⟩
  · exact hout

/-- **The first reconciler of an editor** comes with five new colours. -/
theorem Inv.configure_fresh {s : Editors} (h : s.Inv) {i : ℕ} {b : Bool}
    (he : s.editors[i]? = some ⟨⟨b, none, none, .new⟩⟩) : (s.step (.configure i)).Inv := by
  have hlen : s.display.created.length = 5 * s.configured := by rw [h.created, length_colors]
  have hstep : s.step (.configure i) =
      { s with
        display := { s.display with
          created := s.display.created ++ colorsFrom (5 * s.configured) }
        editors := s.editors.set i ⟨configuredFrom (5 * s.configured) b⟩
        handedOut := s.handedOut ++ [(i, reconcilerFrom (5 * s.configured))] } := by
    simp [step, he, runOn, getPresentationReconciler_fresh, hlen]
  obtain ⟨s', hs'⟩ : ∃ s', s.step (.configure i) = s' := ⟨_, rfl⟩
  rw [hs'] at hstep ⊢
  have hset : s'.editors = s.editors.set i ⟨configuredFrom (5 * s.configured) b⟩ := by rw [hstep]
  have hnot : ∀ n, ¬ s.Owns i n := by
    intro n hn
    obtain ⟨b', hb'⟩ := hn
    rw [he] at hb'
    cases hb'
  have hown : ∀ j n, s'.Owns j n ↔ (j = i ∧ n = 5 * s.configured) ∨ s.Owns j n := by
    intro j n
    rw [owns_set he hset]
    constructor
    · rintro (⟨rfl, b', hb'⟩ | ⟨-, hn⟩)
      · exact Or.inl ⟨rfl, (configuredFrom_inj (congrArg DeviceTreeEditor.configuration hb')).symm⟩
      · exact Or.inr hn
    · rintro (⟨rfl, rfl⟩ | hn)
      · exact Or.inl ⟨rfl, b, rfl⟩
      · refine Or.inr ⟨?_, hn⟩
        rintro rfl
        exact hnot n hn
  have hconf : s'.configured = s.configured + 1 := by
    have hcount := configured_set he hset
    simpa [DeviceTreeEditor.isConfigured, configuredFrom] using hcount
  refine h.add_owner hnot hown hconf (by rw [hstep]) (by rw [hstep]) (by rw [hstep]) ?_ ?_
  · intro j e hj
    rw [hset] at hj
    by_cases hji : j = i
    · exact Or.inr ⟨5 * s.configured, (hown _ _).mpr (Or.inl ⟨hji, rfl⟩)⟩
    · rw [List.getElem?_set_ne (Ne.symm hji)] at hj
      rcases h.editor j e hj with hfresh | ⟨n, hn⟩
      · exact Or.inl hfresh
      · exact Or.inr ⟨n, (hown j n).mpr (Or.inr hn)⟩
  · intro x hx
    rw [hstep] at hx
    rcases List.mem_append.mp hx with hx | hx
    · obtain ⟨n, hn, hr⟩ := h.handedOut x hx
      exact ⟨n, (hown _ n).mpr (Or.inr hn), hr⟩
    · rw [List.mem_singleton.mp hx]
      exact ⟨_, (hown i _).mpr (Or.inl ⟨rfl, rfl⟩), rfl⟩

/-- **Each reconciler** is made of the colours the editor owns. -/
theorem Inv.configure {s : Editors} (h : s.Inv) (i : ℕ) : (s.step (.configure i)).Inv := by
  cases he : s.editors[i]? with
  | none => simpa [step, he] using h
  | some e =>
    rcases h.editor i e he with ⟨b, hb⟩ | ⟨n, b, hb⟩
    · obtain ⟨c⟩ := e
      cases hb
      exact h.configure_fresh he
    · rw [he] at hb
      cases hb
      have hstep : s.step (.configure i) =
          { s with
            editors := s.editors.set i ⟨configuredFrom n b⟩
            handedOut := s.handedOut ++ [(i, reconcilerFrom n)] } := by
        simp [step, he, runOn, getPresentationReconciler_configured]
      rw [hstep]
      refine h.replace he (.owner n b b) rfl rfl rfl ?_
      intro x hx
      rcases List.mem_append.mp hx with hx | hx
      · exact h.handedOut x hx
      · rw [List.mem_singleton.mp hx]
        exact ⟨n, ⟨b, he⟩, rfl⟩

/-- What disposing the colours of a table does. -/
theorem mem_disposed_foldl (c : Color) : ∀ (table : List (RGB × Color)) (d : Display),
    c ∈ (table.foldl (fun d entry => d.dispose entry.2) d).disposed ↔
      c ∈ table.map Prod.snd ∨ c ∈ d.disposed := by
  intro table
  induction table with
  | nil => simp
  | cons entry table ih =>
    intro d
    rw [List.foldl_cons, ih, List.map_cons, List.mem_cons, Display.dispose, List.mem_cons]
    exact or_left_comm.trans (or_assoc.symm)

theorem created_foldl : ∀ (table : List (RGB × Color)) (d : Display),
    (table.foldl (fun d entry => d.dispose entry.2) d).created = d.created := by
  intro table
  induction table with
  | nil => exact fun d => rfl
  | cons entry table ih =>
    intro d
    rw [List.foldl_cons, ih, Display.dispose]

/-- **Disposing an editor** disposes the colours it owns. -/
theorem Inv.dispose {s : Editors} (h : s.Inv) (i : ℕ) : (s.step (.dispose i)).Inv := by
  cases he : s.editors[i]? with
  | none => simpa [step, he] using h
  | some e =>
    rcases h.editor i e he with ⟨b, hb⟩ | ⟨n, b, hb⟩
    · -- it has no colours yet
      have hstep : s.step (.dispose i) = s := by
        simp [step, he, DeviceTreeEditor.dispose, ColorManager.dispose,
          DeviceTreeEditor.isConfigured, hb, ColorManager.new]
      rw [hstep]
      exact h
    · rw [he] at hb
      cases hb
      have hown : s.Owns i n := ⟨b, he⟩
      have hcolors : (configuredFrom n b).colorManager.fColorTable.map Prod.snd = colorsFrom n :=
        rfl
      have hstep : s.step (.dispose i) =
          { s with
            display := (configuredFrom n b).colorManager.dispose s.display
            disposedConfigured := i :: s.disposedConfigured } := by
        simp [step, he, DeviceTreeEditor.dispose, DeviceTreeEditor.isConfigured, configuredFrom]
      rw [hstep]
      refine ⟨?_, h.editor, h.block, h.unique, h.owner, ?_, ?_, h.handedOut⟩
      · exact (created_foldl _ s.display).trans h.created
      · intro j hj
        rcases List.mem_cons.mp hj with rfl | hj
        · exact ⟨n, hown⟩
        · exact h.disposedConfigured j hj
      · intro c
        have hmem := mem_disposed_foldl c (configuredFrom n b).colorManager.fColorTable s.display
        rw [hcolors, h.disposed] at hmem
        refine hmem.trans ?_
        constructor
        · rintro (hc | ⟨j, hj, m, hm, hc⟩)
          · exact ⟨i, List.mem_cons_self .., n, hown, hc⟩
          · exact ⟨j, List.mem_cons_of_mem _ hj, m, hm, hc⟩
        · rintro ⟨j, hj, m, hm, hc⟩
          have hm' : s.Owns j m := hm
          rcases List.mem_cons.mp hj with rfl | hj
          · rw [hm'.unique hown] at hc
            exact Or.inl hc
          · exact Or.inr ⟨j, hj, m, hm', hc⟩

/-- **Every action keeps the invariant.** -/
theorem Inv.step {s : Editors} (h : s.Inv) (a : EditorAction) : (s.step a).Inv := by
  cases a with
  | openEditor => exact h.openEditor
  | configure i => exact h.configure i
  | strategy i => exact h.strategy i
  | dispose i => exact h.dispose i

/-! ### Whole runs -/

/-- **In every state of every run** the invariant holds. -/
theorem always_inv (as : List EditorAction) : Run.Always step Inv new as :=
  Run.always_of_eachStep (C := fun _ _ => True) (fun _ a h _ => h.step a) inv_new
    (Run.eachStep_of_forall (fun _ _ => trivial) as new)

/-- The colours of an editor are numbered from the first one on. -/
theorem number_of_mem_colorsFrom {n : ℕ} {c : Color} (h : c ∈ colorsFrom n) :
    n ≤ c.number ∧ c.number < n + 5 := by
  simp only [colorsFrom, List.mem_cons, List.not_mem_nil, or_false] at h
  rcases h with rfl | rfl | rfl | rfl | rfl <;> simp

/-- A colour has one owner. -/
theorem Inv.owner_unique {s : Editors} (h : s.Inv) {i j n m : ℕ} {c : Color} (hi : s.Owns i n)
    (hj : s.Owns j m) (hc : c ∈ colorsFrom n) (hc' : c ∈ colorsFrom m) : i = j := by
  obtain ⟨k, -, rfl⟩ := h.block i n hi
  obtain ⟨k', -, rfl⟩ := h.block j m hj
  have hn := number_of_mem_colorsFrom hc
  have hm := number_of_mem_colorsFrom hc'
  have hk : k = k' := by omega
  subst hk
  exact h.unique i j _ hi hj

theorem Inv.mem_disposed_iff {s : Editors} (h : s.Inv) {i n : ℕ} {c : Color} (hi : s.Owns i n)
    (hc : c ∈ colorsFrom n) : c ∈ s.display.disposed ↔ i ∈ s.disposedConfigured := by
  rw [h.disposed]
  constructor
  · rintro ⟨j, hj, m, hm, hc'⟩
    rwa [h.owner_unique hi hm hc hc']
  · intro hrel
    exact ⟨i, hrel, n, hi, hc⟩

theorem Inv.mem_created_iff {s : Editors} (h : s.Inv) (c : Color) :
    c ∈ s.display.created ↔ ∃ i n, s.Owns i n ∧ c ∈ colorsFrom n := by
  rw [h.created, List.mem_flatMap]
  constructor
  · rintro ⟨k, hk, hc⟩
    obtain ⟨i, hi⟩ := h.owner k (List.mem_range.mp hk)
    exact ⟨i, _, hi, hc⟩
  · rintro ⟨i, n, hi, hc⟩
    obtain ⟨k, hk, rfl⟩ := h.block i n hi
    exact ⟨k, List.mem_range.mpr hk, hc⟩

/-- The colours are numbered in the order of their creation. -/
theorem map_number_colors (m : ℕ) :
    ((List.range m).flatMap fun k => colorsFrom (5 * k)).map Color.number = List.range (5 * m) := by
  induction m with
  | zero => rfl
  | succ m ih =>
    rw [List.range_succ, List.flatMap_append, List.map_append, ih,
      show 5 * (m + 1) = 5 * m + 1 + 1 + 1 + 1 + 1 by omega]
    simp [colorsFrom, List.range_succ]

theorem Inv.nodup_created {s : Editors} (h : s.Inv) : s.display.created.Nodup := by
  refine List.Nodup.of_map Color.number ?_
  rw [h.created, map_number_colors]
  exact List.nodup_range

end Editors

/-- The colours a damager and repairer presents text in. -/
def DamagerRepairer.colors : DamagerRepairer → List Color
  | .scanning scanner =>
    (scanner.rules.filterMap fun rule =>
      match rule with
      | .singleLine _ _ token _ => some token.foreground
      | .whitespace => none) ++ (scanner.defaultReturnToken.map TextAttribute.foreground).toList
  | .nonRuleBased defaultTextAttribute => [defaultTextAttribute.foreground]

/-- The colours of a reconciler. -/
def PresentationReconciler.colors (reconciler : PresentationReconciler) : List Color :=
  reconciler.repairers.flatMap fun entry => entry.2.colors

/-- The content type of a token. -/
def XMLPartitionScanner.PartitionToken.contentType : PartitionToken → String
  | .xmlComment => XML_COMMENT
  | .xmlTag => XML_TAG
  | .other => IDocument.DEFAULT_CONTENT_TYPE
  | .eof => IDocument.DEFAULT_CONTENT_TYPE

theorem mem_colors_reconcilerFrom (n : ℕ) (c : Color) :
    c ∈ (reconcilerFrom n).colors ↔ c ∈ colorsFrom n := by
  simp [PresentationReconciler.colors, reconcilerFrom, DamagerRepairer.colors, tagScannerWith,
    scannerWith, colorsFrom]

/-- The reconciler can damage and repair every kind of token. -/
theorem lookup_reconcilerFrom (n : ℕ) (token : PartitionToken) :
    token.contentType ∈ getConfiguredContentTypes ∧
      ∃ dr, (reconcilerFrom n).damagers.lookup token.contentType = some dr ∧
        (reconcilerFrom n).repairers.lookup token.contentType = some dr := by
  cases token with
  | xmlComment => exact ⟨by decide, _, rfl, rfl⟩
  | xmlTag => exact ⟨by decide, _, rfl, rfl⟩
  | other => exact ⟨by decide, _, rfl, rfl⟩
  | eof => exact ⟨by decide, _, rfl, rfl⟩

namespace Editors

/-- What the reconcilers that were handed out have in common: those of one editor are
equal, those of two editors share no colour, and each can damage and repair every token of
every text. -/
structure ReconcilersRight (s : Editors) : Prop where
  same : ∀ i r r', (i, r) ∈ s.handedOut → (i, r') ∈ s.handedOut → r = r'
  own : ∀ i j r r', (i, r) ∈ s.handedOut → (j, r') ∈ s.handedOut → i ≠ j →
    ∀ c ∈ r.colors, c ∉ r'.colors
  repairs : ∀ i r, (i, r) ∈ s.handedOut → ∀ text tokens,
    tokensFrom text (text.length + 1) 0 = some tokens → ∀ t ∈ tokens,
      t.1.contentType ∈ getConfiguredContentTypes ∧
        ∃ dr, r.damagers.lookup t.1.contentType = some dr ∧
          r.repairers.lookup t.1.contentType = some dr

/-- **Five colours for each configured editor**: in every state of every run, as many
different colours were created, and the reconcilers of an editor are all made of its own
colours. -/
theorem five_colors_per_editor (as : List EditorAction) :
    Run.Always step (fun s => s.display.created.length = 5 * s.configured ∧
      s.display.created.Nodup ∧ s.ReconcilersRight) new as := by
  refine (always_inv as).mono fun s h => ⟨?_, h.nodup_created, ?_, ?_, ?_⟩
  · rw [h.created, length_colors]
  · intro i r r' hr hr'
    obtain ⟨n, hn, rfl⟩ := h.handedOut _ hr
    obtain ⟨m, hm, rfl⟩ := h.handedOut _ hr'
    rw [hn.unique hm]
  · intro i j r r' hr hr' hij c hc hc'
    obtain ⟨n, hn, rfl⟩ := h.handedOut _ hr
    obtain ⟨m, hm, rfl⟩ := h.handedOut _ hr'
    rw [mem_colors_reconcilerFrom] at hc hc'
    exact hij (h.owner_unique hn hm hc hc')
  · intro i r hr text tokens _ t _
    obtain ⟨n, -, rfl⟩ := h.handedOut _ hr
    exact lookup_reconcilerFrom n t.1

/-- **No colour is left behind exactly when** every editor that was configured has been
disposed since it was configured; a colour of a reconciler is disposed exactly when the
editor that handed it out has been disposed since it was configured. -/
theorem no_color_left_iff (as : List EditorAction) :
    Run.Always step (fun s =>
      (∀ i r, (i, r) ∈ s.handedOut → ∀ c ∈ r.colors,
        (c ∈ s.display.disposed ↔ i ∈ s.disposedConfigured)) ∧
      ((∀ c ∈ s.display.created, c ∈ s.display.disposed) ↔
        ∀ i e, s.editors[i]? = some e → e.isConfigured = true →
          i ∈ s.disposedConfigured)) new as := by
  refine (always_inv as).mono fun s h => ⟨?_, ?_, ?_⟩
  · intro i r hr c hc
    obtain ⟨n, hn, rfl⟩ := h.handedOut _ hr
    rw [mem_colors_reconcilerFrom] at hc
    exact h.mem_disposed_iff hn hc
  · intro hall i e he hconf
    rcases h.editor i e he with hfresh | ⟨n, hn⟩
    · rw [isConfigured_of_fresh hfresh] at hconf
      cases hconf
    · -- one of its colours will do
      have hc : (⟨n, IXMLColorConstants.STRING⟩ : Color) ∈ colorsFrom n := List.mem_cons_self ..
      exact (h.mem_disposed_iff hn hc).mp (hall _ ((h.mem_created_iff _).mpr ⟨i, n, hn, hc⟩))
  · intro hall c hc
    obtain ⟨i, n, hn, hc⟩ := (h.mem_created_iff c).mp hc
    obtain ⟨b, hb⟩ := hn
    exact (h.mem_disposed_iff ⟨b, hb⟩ hc).mpr (hall i _ hb rfl)

/-- The reconciler an action hands out has live colours only. -/
def HandsOutLive (s : Editors) (a : EditorAction) : Prop :=
  ∀ x, (s.step a).handedOut = s.handedOut ++ [x] → ∀ c ∈ x.2.colors,
    c ∉ (s.step a).display.disposed

/-- One action hands out live colours unless it configures an editor that was disposed while
it was configured. -/
theorem Inv.handsOutLive_iff {s : Editors} (h : s.Inv) (a : EditorAction) :
    s.HandsOutLive a ↔ ∀ i, a = .configure i → i ∉ s.disposedConfigured := by
  -- an action that hands out nothing
  have hnone : (s.step a).handedOut = s.handedOut → s.HandsOutLive a := by
    intro hsame x hx
    rw [hsame] at hx
    exact absurd hx (by simp)
  cases a with
  | openEditor => exact iff_of_true (hnone rfl) (by simp)
  | strategy i =>
    refine iff_of_true (hnone ?_) (by simp)
    cases he : s.editors[i]? <;> simp [Editors.step, he]
  | dispose i =>
    refine iff_of_true (hnone ?_) (by simp)
    cases he : s.editors[i]? <;> simp [Editors.step, he]
  | configure i =>
    cases he : s.editors[i]? with
    | none =>
      refine iff_of_true (hnone (by simp [Editors.step, he])) ?_
      intro j hj hrel
      cases hj
      obtain ⟨n, b, hb⟩ := h.disposedConfigured i hrel
      rw [he] at hb
      cases hb
    | some e =>
      obtain ⟨r, hr⟩ : ∃ r, (s.step (.configure i)).handedOut = s.handedOut ++ [(i, r)] :=
        ⟨(s.runOn i e getPresentationReconciler).1, by simp [Editors.step, he]⟩
      have hdisposedConf : (s.step (.configure i)).disposedConfigured = s.disposedConfigured := by
        simp [Editors.step, he]
      obtain ⟨n, hn, hrn⟩ := (h.step (.configure i)).handedOut (i, r) (by simp [hr])
      have hlive : ∀ c ∈ r.colors, (c ∈ (s.step (.configure i)).display.disposed ↔
          i ∈ s.disposedConfigured) := by
        intro c hc
        rw [show r = reconcilerFrom n from hrn, mem_colors_reconcilerFrom] at hc
        rw [(h.step (.configure i)).mem_disposed_iff hn hc, hdisposedConf]
      constructor
      · intro hall j hj hrel
        cases hj
        have hc : (⟨n, IXMLColorConstants.STRING⟩ : Color) ∈ r.colors := by
          rw [show r = reconcilerFrom n from hrn, mem_colors_reconcilerFrom]
          exact List.mem_cons_self ..
        exact hall (i, r) hr _ hc ((hlive _ hc).mpr hrel)
      · intro hnot x hx c hc hdisposed
        rw [hr] at hx
        have hxr : (i, r) = x := by simpa using List.append_cancel_left hx
        subst hxr
        exact hnot i rfl ((hlive c hc).mp hdisposed)

/-- **When a reconciler is handed out with live colours**: exactly when no editor is
configured again after it has been disposed while it was configured. -/
theorem reconcilers_live_iff (as : List EditorAction) :
    Run.EachStep step HandsOutLive new as ↔
      Run.EachStep step (fun s a => ∀ i, a = .configure i → i ∉ s.disposedConfigured) new as :=
  Run.eachStep_congr (I := Inv) (fun _ a h _ => h.step a) (fun _ a h => h.handsOutLive_iff a)
    inv_new

end Editors

end SilverTree
