import SilverTree.TreeView

/-!
# From the tree to the editor

A double-click on an object of the tree opens an editor and selects the range of the
object's token.  The offset belongs to the text that was parsed; the file is looked up
again from the editor that is active at the click, and the range is selected in the
buffer of that editor, saved or not.  Nothing in the view keeps the three together, so
this is a matter of what happens around the view.

`IDE.openEditor` on the file of the active editor returns the active editor itself: it
prefers, among the editors open on a file, the one that was active last.

## Main definitions

* `navigateToLine`, `doubleClick` — the code, and `Selection` — what it does.
* `Session.Shown` — the objects in the tree viewer.
* `Tracking.Aimed` — the buffer of the active editor is the text that was parsed, if that
  has objects to show.
* `Tracking.KeepsAim` — the events that do not pull the two apart.

## Main results

* `Tracking.Aimed.step` — those events keep a view aimed.
* `doubleClick_selects_token` — **in a session of such events every double-click selects
  the token of the object.**
-/

namespace SilverTree

/-! ### The code -/

/-- A range of the buffer of an editor that has been selected. -/
structure Selection where
  editor : IEditorPart
  offset : ℕ
  length : ℕ

/-- The selected text. -/
def Selection.text (w : World) (sel : Selection) : Text :=
  slice (w.buffer sel.editor.handle) sel.offset sel.length

/-- `navigateToLine(offset, length)`: without a page nothing happens. -/
def navigateToLine (page : Option IWorkbenchPage) (w : World) (offset length : ℕ) :
    Except JavaException (Option Selection) :=
  match page with
  | none => .ok none
  | some _ =>
    match w.activeEditor with
    | none => .error .nullPointer
    | some editor =>
      match editor.getFile with
      -- `IDE.openEditor` rejects a null file
      | none => .error .illegalArgument
      | some _ =>
        -- the cast to `AbstractTextEditor`
        if editor.isTextEditor then .ok (some ⟨editor, offset, length⟩) else .error .classCast

/-- `doubleClickAction` on an object. -/
def doubleClick (s : TreeSession) (o : TreeElement) : Except JavaException (Option Selection) :=
  navigateToLine s.view.page s.world o.getOffsetInEditor o.object.token.text.length

/-- The objects in the tree viewer: the elements on display, and what expanding one of
them shows. -/
inductive Session.Shown (s : TreeSession) : TreeElement → Prop
  | top {e : TreeElement} : e ∈ s.view.viewer.elements → s.Shown e
  | child {e e' : TreeElement} : s.Shown e → e' ∈ DeviceTreeContentProvider.getChildren e →
      s.Shown e'

/-! ### What is shown was parsed -/

variable {lib : SilverLeaves}

/-- The elements of a text are those of the tree it parses to. -/
theorem exists_root_of_mem_elementsOfContent {c : Option Content} {e : TreeElement}
    (h : e ∈ elementsOfContent lib c) :
    ∃ c' root, c = some c' ∧ lib.create c'.text = .ok root ∧ e ∈ root.visibleChildren [] := by
  cases c with
  | none => simp [elementsOfContent] at h
  | some c =>
    cases hparse : lib.create c.text with
    | error ex => simp [elementsOfContent, elementsOf, hparse] at h
    | ok root =>
      simp only [elementsOfContent, elementsOf, hparse] at h
      exact ⟨c, root, rfl, hparse, h⟩

/-- A tree that shows an object has visible children. -/
theorem DeviceTree.Shows.visibleChildren_ne_nil {root : DeviceTreeRoot} {o : TreeElement}
    (h : root.Shows o) : root.visibleChildren [] ≠ [] := by
  induction h with
  | top he => exact List.ne_nil_of_mem he
  | child _ _ _ ih => exact ih

/-- Every object in the viewer belongs to the tree of the installed content string. -/
theorem Session.Shown.shows {s : TreeSession} (hs : s.Displays lib) {o : TreeElement}
    (h : s.Shown o) :
    ∃ c root, s.content (DeviceTreeView lib) = some c ∧ lib.create c.text = .ok root ∧
      root.Shows o := by
  induction h with
  | top he =>
    rw [hs.elements_eq] at he
    obtain ⟨c, root, hc, hparse, he⟩ := exists_root_of_mem_elementsOfContent he
    exact ⟨c, root, hc, hparse, .top he⟩
  | @child e e' _ hchild ih =>
    obtain ⟨c, root, hc, hparse, hshows⟩ := ih
    refine ⟨c, root, hc, hparse, ?_⟩
    unfold DeviceTreeContentProvider.getChildren at hchild
    cases ht : e.object.asDeviceTree with
    | none => simp [ht] at hchild
    | some t =>
      rw [ht] at hchild
      exact .child hshows ht hchild

/-! ### Aim -/

/-- Ranges of a text can be selected in an editor: it is a text editor on a file, with
that text in its buffer. -/
structure World.Holds (w : World) (e : IEditorPart) (text : Text) : Prop where
  file : e.getFile.isSome = true
  isTextEditor : e.isTextEditor = true
  buffer : w.buffer e.handle = text

variable (lib) in
/-- If a text has objects to show, an editor holds it. -/
def World.AimsAt (w : World) (e : IEditorPart) (text : Text) : Prop :=
  elementsOf lib text ≠ [] → w.Holds e text

variable (lib) in
/-- An editor without unsaved changes: its buffer holds the saved text of its file. -/
def World.Clean (w : World) (e : IEditorPart) : Prop :=
  ∀ f, e.getFile = some f → w.AimsAt lib e (w.contents f)

/-- Only the buffers matter. -/
theorem World.AimsAt.congr {w w' : World} {e : IEditorPart} {text : Text}
    (h : w.AimsAt lib e text) (hbuffer : w'.buffer = w.buffer) : w'.AimsAt lib e text :=
  fun hshows => ⟨(h hshows).file, (h hshows).isTextEditor, by rw [hbuffer]; exact (h hshows).buffer⟩

/-- The saved content of a clean editor is what the editor holds. -/
theorem World.Clean.aimsAt {w : World} {e : IEditorPart} (h : w.Clean lib e) {c : Content}
    (hc : w.contentOf e = some c) : w.AimsAt lib e c.text := by
  obtain ⟨hed, htext⟩ := World.contentOf_spec hc
  rw [htext]
  exact h c.file (by rw [← hed]; exact c.getFile_editor)

namespace Tracking

variable (lib) in
/-- The active editor holds the text in the provider. -/
def Aimed (t : Tracking) : Prop :=
  ∀ e, t.world.activeEditor = some e → ∀ c, t.content = some c → t.world.AimsAt lib e c.text

variable (lib) in
/-- The event does not pull the active editor and the text in the provider apart.  A
reload takes the saved text, so it needs a clean editor.  Without a reload the text in
the provider stays, and the buffer of the active editor must stay with it. -/
def KeepsAim (t : Tracking) : Event → Prop
  | .activated (.editor e) =>
    if e.id = DeviceTreeEditor.ID ∧ ¬ t.Current e then t.world.Clean lib e
    else ∀ c, t.content = some c → t.world.AimsAt lib e c.text
  | .resource (.postChange delta) =>
    t.page.isSome = true → ∀ e, t.world.activeEditor = some e →
      (t.world.apply (.resource (.postChange delta))).Clean lib e
  | .edited e text =>
    ∀ a c, t.world.activeEditor = some a → a.handle = e.handle → t.content = some c →
      elementsOf lib c.text ≠ [] → text = c.text
  | .activated (.view _) => True
  | .resource _ => True
  | .editorClosed => True

theorem Start.aimed {w : World} {t : Tracking} (h : Start w t)
    (hclean : w.activePart.isSome = true → ∀ e, w.activeEditor = some e → w.Clean lib e) :
    t.Aimed lib := by
  cases h with
  | idle _ => intro e _ c hc; cases hc
  | editor hpart he =>
    intro e' he' c hc
    have heq := he.symm.trans he'
    cases heq
    exact (hclean hpart _ he).aimsAt hc

theorem Aimed.step_activated {t : Tracking} {e : IEditorPart}
    (hev : t.KeepsAim lib (.activated (.editor e))) :
    (t.step true (.activated (.editor e))).Aimed lib := by
  simp only [KeepsAim] at hev
  by_cases hload : e.id = DeviceTreeEditor.ID ∧ ¬ t.Current e
  · rw [if_pos hload] at hev
    rw [step_activated_load _ hload.1 hload.2]
    intro e' he' c hc
    cases he'
    have hclean : (t.world.apply (.activated (.editor e))).Clean lib e :=
      fun f hf => (hev f hf).congr rfl
    exact hclean.aimsAt hc
  · rw [if_neg hload] at hev
    rw [step_activated_keep _ fun hid => Classical.not_not.mp fun hcur => hload ⟨hid, hcur⟩]
    intro e' he' c hc
    cases he'
    exact (hev c hc).congr rfl

theorem Aimed.step_edited {t : Tracking} (h : t.Aimed lib) {e : IEditorPart} {text : Text}
    (hev : t.KeepsAim lib (.edited e text)) : (t.step true (.edited e text)).Aimed lib := by
  intro a ha c hc hshows
  have hholds := h a ha c hc hshows
  refine ⟨hholds.file, hholds.isTextEditor, ?_⟩
  change Function.update t.world.buffer e.handle text a.handle = c.text
  by_cases hhandle : a.handle = e.handle
  · rw [hhandle, Function.update_self]
    exact hev a c ha hhandle hc hshows
  · rw [Function.update_of_ne hhandle]
    exact hholds.buffer

theorem Aimed.step_postChange {t : Tracking} {delta : List (IFile × Text)}
    (hev : t.KeepsAim lib (.resource (.postChange delta))) :
    (t.step true (.resource (.postChange delta))).Aimed lib := by
  rw [Tracking.step_postChange]
  intro e he c hc
  cases hpage : t.page with
  | none => simp [hpage] at hc
  | some pg =>
    simp only [hpage, Option.bind_some] at hc
    have hact : (t.world.apply (.resource (.postChange delta))).activeEditor = some e := he
    rw [World.activeContent, hact, Option.bind_some] at hc
    exact (hev (by rw [hpage]; rfl) e he).aimsAt hc

/-- **An event that keeps the aim**, in any state. -/
theorem Aimed.step {t : Tracking} (h : t.Aimed lib) {ev : Event} (hev : t.KeepsAim lib ev) :
    (t.step true ev).Aimed lib := by
  cases ev with
  | editorClosed => intro e he; cases he
  | edited e text => exact h.step_edited hev
  | activated part =>
    cases part with
    | editor e => exact Aimed.step_activated hev
    | view v => exact fun e he c hc => (h e he c hc).congr rfl
  | resource event =>
    cases event with
    | postChange delta => exact Aimed.step_postChange hev
    | preClose => exact h
    | preDelete => exact h
    | preRefresh => exact h
    | preBuild => exact h
    | postBuild => exact h

end Tracking

/-! ### Double-clicks -/

/-- Where the active editor holds a text, navigation selects the range of the text. -/
theorem navigateToLine_of_holds {page : Option IWorkbenchPage} {w : World} {e : IEditorPart}
    {text : Text} (hpage : page.isSome = true) (he : w.activeEditor = some e)
    (h : w.Holds e text) (offset length : ℕ) :
    ∃ sel, navigateToLine page w offset length = .ok (some sel) ∧
      sel.text w = slice text offset length := by
  obtain ⟨pg, rfl⟩ := Option.isSome_iff_exists.mp hpage
  obtain ⟨f, hf⟩ := Option.isSome_iff_exists.mp h.file
  refine ⟨⟨e, offset, length⟩, ?_, ?_⟩
  · simp [navigateToLine, he, hf, h.isTextEditor]
  · rw [Selection.text, h.buffer]

/-- In a state that is aimed, every double-click selects the token of the object. -/
theorem doubleClick_of_aimed (hlib : lib.OffsetsFaithful) {s : TreeSession} (hs : s.Sound lib)
    (haim : (s.track (DeviceTreeView lib)).Aimed lib) {a : IEditorPart}
    (ha : s.world.activeEditor = some a) {o : TreeElement} (ho : s.Shown o) :
    ∃ sel, doubleClick s o = .ok (some sel) ∧ sel.text s.world = o.object.token.text := by
  obtain ⟨c, root, hc, hparse, hshows⟩ := ho.shows hs.displays
  have hpage : s.view.page.isSome = true := by
    cases hnone : s.view.page with
    | some pg => rfl
    | none =>
      have hcontent : s.content (DeviceTreeView lib) = none := hs.inSync.page_of_content hnone
      rw [hc] at hcontent
      cases hcontent
  have hne : elementsOf lib c.text ≠ [] := by
    rw [elementsOf, hparse]
    exact hshows.visibleChildren_ne_nil
  obtain ⟨sel, hsel, htext⟩ := navigateToLine_of_holds hpage ha (haim a ha c hc hne)
    o.getOffsetInEditor o.object.token.text.length
  refine ⟨sel, hsel, ?_⟩
  rw [htext]
  exact hlib c.text root hparse o hshows

/-- **Every double-click selects the token of the object**, in every state with an active
editor of every session that starts on a clean editor and whose events keep the aim. -/
theorem doubleClick_selects_token (lib : SilverLeaves) (hlib : lib.OffsetsFaithful) {w : World}
    {s : TreeSession} (hopen : (DeviceTreeView lib).openView w = .ok s)
    (hclean : w.activePart.isSome = true → ∀ e, w.activeEditor = some e → w.Clean lib e)
    (es : List Event)
    (hes : Run.EachStep (DeviceTreeView lib).step
      (fun s ev => (s.track (DeviceTreeView lib)).KeepsAim lib ev) s es) :
    Run.Always (DeviceTreeView lib).step
      (fun s => ∀ a, s.world.activeEditor = some a → ∀ o, s.Shown o →
        ∃ sel, doubleClick s o = .ok (some sel) ∧ sel.text s.world = o.object.token.text) s es := by
  have hinv : Run.Always (DeviceTreeView lib).step
      (fun s => s.Sound lib ∧ (s.track (DeviceTreeView lib)).Aimed lib) s es := by
    have hstart := (openView_spec hopen).2.aimed hclean
    refine Run.always_of_eachStep ?_ ⟨sound_openView hopen, hstart⟩ hes
    rintro s ev ⟨hs, haim⟩ hev
    refine ⟨hs.step ev, ?_⟩
    rw [track_step hs.proper]
    exact haim.step hev
  refine hinv.mono ?_
  rintro s ⟨hs, haim⟩ a ha o ho
  exact doubleClick_of_aimed hlib hs haim ha ho

/-- The one object of an attribute is found at the start of the text. -/
theorem attributeLibrary_offsetsFaithful : attributeLibrary.OffsetsFaithful := by
  intro text root hparse e hshows
  cases hparse
  have hattr : e = ⟨.attr ⟨.ATTRIBUTE, 0, text⟩,
      [⟨⟨.TREE, 0, text⟩, [.attr ⟨.ATTRIBUTE, 0, text⟩]⟩]⟩ := by
    induction hshows with
    | top he => exact List.mem_singleton.mp he
    | child _ ht _ ih =>
      rw [ih] at ht
      cases ht
  rw [hattr]
  exact List.take_length

/-- Saving another file and moving on to a clean editor. -/
theorem doubleClick_selects_token_sample :
    ∃ s, (DeviceTreeView attributeLibrary).openView sampleWorld = .ok s ∧
      Run.Always (DeviceTreeView attributeLibrary).step
        (fun s => ∀ a, s.world.activeEditor = some a → ∀ o, s.Shown o →
          ∃ sel, doubleClick s o = .ok (some sel) ∧ sel.text s.world = o.object.token.text) s
        [.edited editorX' [100, 59], .resource (.postChange [(fileX', [100, 59])]),
          .activated (.editor editorY)] := by
  refine ⟨_, rfl, doubleClick_selects_token attributeLibrary attributeLibrary_offsetsFaithful
    (w := sampleWorld) rfl ?_ _ ⟨?_, ?_, ?_, trivial⟩⟩
  · rintro - e he f hf -
    cases he
    cases hf
    exact ⟨rfl, rfl, rfl⟩
  · rintro a c ha hhandle - -
    cases ha
    exact absurd hhandle (by decide)
  · rintro - e he f hf -
    cases he
    cases hf
    exact ⟨rfl, rfl, rfl⟩
  · rintro f hf -
    cases hf
    exact ⟨rfl, rfl, rfl⟩

/-- After a text file has been activated, a double-click on the object `a;` selects
`c;`, in the text file. -/
theorem doubleClick_selects_token_fails :
    ¬ ∀ (lib : SilverLeaves), lib.OffsetsFaithful → ∀ (w : World) (s : TreeSession),
      (DeviceTreeView lib).openView w = .ok s → ∀ es,
        Run.Always (DeviceTreeView lib).step
          (fun s => ∀ a, s.world.activeEditor = some a → ∀ o, s.Shown o →
            ∃ sel, doubleClick s o = .ok (some sel) ∧
              sel.text s.world = o.object.token.text) s es := by
  intro h
  have hrun := h attributeLibrary attributeLibrary_offsetsFaithful sampleWorld _ rfl
    [.activated (.editor editorNotes)]
  obtain ⟨sel, hsel, htext⟩ := hrun.2 editorNotes rfl _ (.top (List.mem_singleton.mpr rfl))
  cases hsel
  exact absurd htext (by decide)

end SilverTree
