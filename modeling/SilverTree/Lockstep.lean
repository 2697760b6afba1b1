import SilverTree.Provenance

/-!
# The two views side by side

`DeviceTreeView` and `MemoryView` follow the active editor with the same code, and a
user who opens both expects the tree and the memory map to describe the same text.
Activations indeed move the two views in lockstep.  But only `DeviceTreeView` reloads
when the workspace changes, so every save can pull the two texts apart.

## Main definitions

* `TwoViews`, `TwoViews.step` — both views in one workbench.
* `OpenedOn lib e` — both views, opened one after the other while `e` is active.
* `Tracking.Lockstep` — the pages and the names the views compare with agree.

## Main results

* `Tracking.Lockstep.step` — **lockstep is never lost.**
* `same_text_iff` — **when both views hold the same text in every state.**
-/

namespace SilverTree

/-! ### Both views in one workbench -/

/-- Both views in one workbench. -/
structure TwoViews where
  world : World
  tree : ViewState DeviceTreeContentProvider TreeElement
  memory : ViewState DeviceTreeMemoryProvider Address

namespace TwoViews

/-- The tree view in its workbench. -/
def treeSession (s : TwoViews) : Session DeviceTreeContentProvider TreeElement :=
  ⟨s.world, s.tree⟩

/-- The memory view in its workbench. -/
def memorySession (s : TwoViews) : Session DeviceTreeMemoryProvider Address :=
  ⟨s.world, s.memory⟩

variable (lib : SilverLeaves)

/-- One event: the platform changes, then the handlers of both views run. -/
def step (s : TwoViews) (ev : Event) : TwoViews where
  world := s.world.apply ev
  tree := ((DeviceTreeView lib).step s.treeSession ev).view
  memory := ((MemoryView lib).step s.memorySession ev).view

@[simp] theorem treeSession_step (s : TwoViews) (ev : Event) :
    (s.step lib ev).treeSession = (DeviceTreeView lib).step s.treeSession ev := rfl

@[simp] theorem memorySession_step (s : TwoViews) (ev : Event) :
    (s.step lib ev).memorySession = (MemoryView lib).step s.memorySession ev := rfl

/-- The text the tree view holds. -/
def treeText (s : TwoViews) : Option Text :=
  (s.treeSession.content (DeviceTreeView lib)).map Content.text

/-- The text the memory view holds. -/
def memoryText (s : TwoViews) : Option Text :=
  (s.memorySession.content (MemoryView lib)).map Content.text

end TwoViews

/-- Both views have been opened, one after the other, while `e` is the active editor.
Opening a view may change the active part, but not the active editor. -/
inductive OpenedOn (lib : SilverLeaves) (e : IEditorPart) : TwoViews → Prop
  | treeFirst {w : World} {part : IWorkbenchPart}
      {tree : Session DeviceTreeContentProvider TreeElement}
      {memory : Session DeviceTreeMemoryProvider Address} :
      w.activeEditor = some e → w.activePart.isSome = true →
      (DeviceTreeView lib).openView w = .ok tree →
      (MemoryView lib).openView { w with activePart := some part } = .ok memory →
      OpenedOn lib e ⟨memory.world, tree.view, memory.view⟩
  | memoryFirst {w : World} {part : IWorkbenchPart}
      {tree : Session DeviceTreeContentProvider TreeElement}
      {memory : Session DeviceTreeMemoryProvider Address} :
      w.activeEditor = some e → w.activePart.isSome = true →
      (MemoryView lib).openView w = .ok memory →
      (DeviceTreeView lib).openView { w with activePart := some part } = .ok tree →
      OpenedOn lib e ⟨tree.world, tree.view, memory.view⟩

/-! ### Lockstep -/

namespace Tracking

/-- Two views of one workbench that compare with the same page and name. -/
structure Lockstep (t t' : Tracking) : Prop where
  world : t.world = t'.world
  page : t.page = t'.page
  currEditorName : t.currEditorName = t'.currEditorName
  isSome_page : t.page.isSome = true

/-- A view that is opened while an editor and a part are active has read the editor. -/
theorem Start.eq_of_active {w : World} {t : Tracking} (h : Start w t) {e : IEditorPart}
    (he : w.activeEditor = some e) (hpart : w.activePart.isSome = true) :
    t = ⟨w, some .window, some e.getName, w.contentOf e⟩ := by
  cases h with
  | idle hnone =>
    rw [hnone] at hpart
    cases hpart
  | editor _ he' =>
    rw [he] at he'
    cases he'
    rfl

theorem Lockstep.current_iff {t t' : Tracking} (h : t.Lockstep t') (e : IEditorPart) :
    t.Current e ↔ t'.Current e := by
  rw [Current, Current, h.page, h.currEditorName]

/-- Both views ignore the event, or the event only reaches the content string. -/
theorem Lockstep.keep {t t' : Tracking} (h : t.Lockstep t') (ev : Event) (c c' : Option Content) :
    Lockstep { t with world := t.world.apply ev, content := c }
      { t' with world := t'.world.apply ev, content := c' } :=
  ⟨by rw [h.world], h.page, h.currEditorName, h.isSome_page⟩

/-- An activation is ignored or taken for a refresh by both views, or makes both load
the same content. -/
theorem Lockstep.activated_cases {t t' : Tracking} (h : t.Lockstep t') (listens listens' : Bool)
    (e : IEditorPart) :
    (t.step listens (.activated (.editor e))
        = { t with world := t.world.apply (.activated (.editor e)) } ∧
      t'.step listens' (.activated (.editor e))
        = { t' with world := t'.world.apply (.activated (.editor e)) }) ∨
    (t.step listens (.activated (.editor e))
        = ⟨t.world.apply (.activated (.editor e)), some .window, some e.getName,
            (t.world.apply (.activated (.editor e))).contentOf e⟩ ∧
      t'.step listens' (.activated (.editor e))
        = ⟨t.world.apply (.activated (.editor e)), some .window, some e.getName,
            (t.world.apply (.activated (.editor e))).contentOf e⟩) := by
  by_cases hload : e.id = DeviceTreeEditor.ID → t.Current e
  · have hload' : e.id = DeviceTreeEditor.ID → t'.Current e :=
      fun hid => (h.current_iff e).mp (hload hid)
    exact Or.inl ⟨step_activated_keep _ hload, step_activated_keep _ hload'⟩
  · rw [Classical.not_imp] at hload
    have hcur' : ¬ t'.Current e := fun hcur => hload.2 ((h.current_iff e).mpr hcur)
    refine Or.inr ⟨step_activated_load _ hload.1 hload.2, ?_⟩
    rw [step_activated_load _ hload.1 hcur', h.world]

/-- **Lockstep is never lost**, whether the views listen to resources or not: the page
and the name are assigned by `partActivated` alone. -/
theorem Lockstep.step {t t' : Tracking} (h : t.Lockstep t') (listens listens' : Bool) (ev : Event) :
    (t.step listens ev).Lockstep (t'.step listens' ev) := by
  cases ev with
  | editorClosed => exact h.keep .editorClosed t.content t'.content
  | edited e text => exact h.keep (.edited e text) t.content t'.content
  | activated part =>
    cases part with
    | view v => exact h.keep (.activated (.view v)) t.content t'.content
    | editor e =>
      rcases h.activated_cases listens listens' e with ⟨hkeep, hkeep'⟩ | ⟨hload, hload'⟩
      · rw [hkeep, hkeep']
        exact h.keep (.activated (.editor e)) t.content t'.content
      · rw [hload, hload']
        exact ⟨rfl, rfl, rfl, rfl⟩
  | resource event =>
    have hone : ∀ (t : Tracking) (l : Bool), ∃ c,
        t.step l (.resource event)
          = { t with world := t.world.apply (.resource event), content := c } := by
      intro t l
      by_cases hpost : l = true ∧ ∃ delta, event = .postChange delta
      · obtain ⟨rfl, delta, rfl⟩ := hpost
        exact ⟨_, step_postChange t delta⟩
      · exact ⟨t.content, step_resource_keep hpost⟩
    obtain ⟨c, hc⟩ := hone t listens
    obtain ⟨c', hc'⟩ := hone t' listens'
    rw [hc, hc']
    exact h.keep (.resource event) c c'

/-- The two content strings have the same text. -/
def SameText (t t' : Tracking) : Prop := t.content.map Content.text = t'.content.map Content.text

/-- **One event**: of two views in lockstep, of which only the first listens to
resources, the texts stay the same exactly when a `POST_CHANGE` leaves the active
editor's file with the text the second view holds. -/
theorem Lockstep.sameText_step_iff {t t' : Tracking} (h : t.Lockstep t') (ht : t.SameText t')
    (ev : Event) :
    (t.step true ev).SameText (t'.step false ev) ↔
      ∀ delta, ev = .resource (.postChange delta) →
        (t.world.apply ev).activeContent.map Content.text = t'.content.map Content.text := by
  cases ev with
  | editorClosed => exact iff_of_true ht (by simp)
  | edited e text => exact iff_of_true ht (by simp)
  | activated part =>
    refine iff_of_true ?_ (by simp)
    cases part with
    | view v => exact ht
    | editor e =>
      rcases h.activated_cases true false e with ⟨hkeep, hkeep'⟩ | ⟨hload, hload'⟩
      · rw [hkeep, hkeep']
        exact ht
      · rw [hload, hload', SameText]
  | resource event =>
    have hsecond : ¬ (false = true ∧ ∃ delta, event = .postChange delta) := by simp
    rw [step_resource_keep hsecond]
    by_cases hpost : ∃ delta, event = .postChange delta
    · obtain ⟨delta, rfl⟩ := hpost
      obtain ⟨pg, hpg⟩ := Option.isSome_iff_exists.mp h.isSome_page
      rw [step_postChange, SameText, hpg, Option.bind_some]
      constructor
      · intro hsame _ _
        exact hsame
      · intro hsame
        exact hsame delta rfl
    · rw [step_resource_keep fun hl => hpost hl.2]
      refine iff_of_true ht ?_
      intro delta hev
      cases hev
      exact absurd ⟨delta, rfl⟩ hpost

end Tracking

/-! ### Runs of both views -/

section Runs

variable {lib : SilverLeaves}

variable (lib) in
/-- The invariant of both views between events. -/
structure TwoViews.Proper (s : TwoViews) : Prop where
  tree : s.treeSession.Proper
  memory : s.memorySession.Proper
  lockstep : (s.treeSession.track (DeviceTreeView lib)).Lockstep
    (s.memorySession.track (MemoryView lib))

theorem TwoViews.Proper.step {s : TwoViews} (h : s.Proper lib) (ev : Event) :
    (s.step lib ev).Proper lib := by
  refine ⟨h.tree.step ev, h.memory.step ev, ?_⟩
  rw [treeSession_step, memorySession_step, track_step h.tree, track_step h.memory]
  exact h.lockstep.step _ _ ev

/-- Two views that have been opened while the same editor is active hold the same text. -/
theorem OpenedOn.proper {e : IEditorPart} {s : TwoViews} (h : OpenedOn lib e s) :
    s.Proper lib ∧ s.treeText lib = s.memoryText lib := by
  have main : ∀ {w w' w'' : World} {tree : Session DeviceTreeContentProvider TreeElement}
      {memory : Session DeviceTreeMemoryProvider Address},
      (DeviceTreeView lib).openView w = .ok tree → (MemoryView lib).openView w' = .ok memory →
      w.activeEditor = some e → w.activePart.isSome = true →
      w'.activeEditor = some e → w'.activePart.isSome = true →
      w.contentOf e = w'.contentOf e →
      TwoViews.Proper lib ⟨w'', tree.view, memory.view⟩ ∧
        TwoViews.treeText lib ⟨w'', tree.view, memory.view⟩
          = TwoViews.memoryText lib ⟨w'', tree.view, memory.view⟩ := by
    intro w w' w'' tree memory htree hmemory he hp he' hp' hcontent
    obtain ⟨htree, hstart⟩ := openView_spec htree
    obtain ⟨hmemory, hstart'⟩ := openView_spec hmemory
    have ht := hstart.eq_of_active he hp
    have hm := hstart'.eq_of_active he' hp'
    have hpage : tree.view.page = some .window := congrArg Tracking.page ht
    have hpage' : memory.view.page = some .window := congrArg Tracking.page hm
    have hname : tree.view.currEditorName = some e.getName := congrArg Tracking.currEditorName ht
    have hname' : memory.view.currEditorName = some e.getName :=
      congrArg Tracking.currEditorName hm
    refine ⟨⟨⟨htree.ready, htree.named⟩, ⟨hmemory.ready, hmemory.named⟩,
      ⟨rfl, hpage.trans hpage'.symm, hname.trans hname'.symm, ?_⟩⟩, ?_⟩
    · change tree.view.page.isSome = true
      rw [hpage]
      rfl
    · have hc : tree.view.viewer.content (DeviceTreeView lib).provider = w.contentOf e :=
        congrArg Tracking.content ht
      have hc' : memory.view.viewer.content (MemoryView lib).provider = w'.contentOf e :=
        congrArg Tracking.content hm
      change Option.map Content.text (tree.view.viewer.content (DeviceTreeView lib).provider)
        = Option.map Content.text (memory.view.viewer.content (MemoryView lib).provider)
      rw [hc, hc', hcontent]
  cases h with
  | treeFirst he hp htree hmemory => exact main htree hmemory he hp he rfl rfl
  | memoryFirst he hp hmemory htree => exact main htree hmemory he rfl he hp rfl

/-- **Both views hold the same text in every state exactly when** every `POST_CHANGE`
leaves the file of the active editor with the text that the memory view holds. -/
theorem same_text_iff (lib : SilverLeaves) {e : IEditorPart} {s : TwoViews}
    (hopen : OpenedOn lib e s) (es : List Event) :
    Run.Always (TwoViews.step lib) (fun s => s.treeText lib = s.memoryText lib) s es ↔
      Run.EachStep (TwoViews.step lib)
        (fun s ev => ∀ delta, ev = .resource (.postChange delta) →
          (s.world.apply ev).activeContent.map Content.text = s.memoryText lib) s es := by
  obtain ⟨hproper, htext⟩ := hopen.proper
  have hiff : Run.Always (TwoViews.step lib) (fun s => s.treeText lib = s.memoryText lib) s es ↔
      s.treeText lib = s.memoryText lib ∧ Run.EachStep (TwoViews.step lib)
        (fun s ev => ∀ delta, ev = .resource (.postChange delta) →
          (s.world.apply ev).activeContent.map Content.text = s.memoryText lib) s es := by
    refine Run.always_iff_eachStep (I := fun s => s.Proper lib) (fun s ev hs => hs.step ev) ?_
      hproper
    intro s ev hs hsame
    have hstep := hs.lockstep.sameText_step_iff hsame ev
    have ht : (s.step lib ev).treeSession.track (DeviceTreeView lib)
        = (s.treeSession.track (DeviceTreeView lib)).step true ev := track_step hs.tree ev
    have hm : (s.step lib ev).memorySession.track (MemoryView lib)
        = (s.memorySession.track (MemoryView lib)).step false ev := track_step hs.memory ev
    rw [← ht, ← hm] at hstep
    exact hstep
  exact hiff.trans (and_iff_right htext)

/-- Visiting a text file and saving it from elsewhere does no harm. -/
theorem same_text_sample :
    ∃ s, OpenedOn attributeLibrary editorX s ∧
      Run.Always (TwoViews.step attributeLibrary)
        (fun s => s.treeText attributeLibrary = s.memoryText attributeLibrary) s
        [.activated (.editor editorNotes), .activated (.editor editorX),
          .resource (.postChange [(fileNotes, [100, 59])])] := by
  have hopen := OpenedOn.treeFirst (w := sampleWorld) (e := editorX) rfl rfl
    (rfl : (DeviceTreeView attributeLibrary).openView sampleWorld = .ok _)
    (rfl : (MemoryView attributeLibrary).openView sampleWorld = .ok _)
  refine ⟨_, hopen, (same_text_iff attributeLibrary hopen _).mpr ⟨?_, ?_, ?_, trivial⟩⟩
  · intro delta hev
    cases hev
  · intro delta hev
    cases hev
  · rintro delta -
    rfl

/-- Saving the file of the active editor reaches the tree view only. -/
theorem same_text_fails :
    ¬ ∀ (lib : SilverLeaves) (e : IEditorPart) (s : TwoViews), e.id = DeviceTreeEditor.ID →
      OpenedOn lib e s → ∀ es,
        Run.Always (TwoViews.step lib) (fun s => s.treeText lib = s.memoryText lib) s es := by
  intro h
  have hopen := OpenedOn.treeFirst (w := sampleWorld) (e := editorX) rfl rfl
    (rfl : (DeviceTreeView attributeLibrary).openView sampleWorld = .ok _)
    (rfl : (MemoryView attributeLibrary).openView sampleWorld = .ok _)
  have hrun := h attributeLibrary editorX _ rfl hopen
    [.resource (.postChange [(fileX, [100, 59])])]
  have htext : (some [100, 59] : Option Text) = some [97, 59] := hrun.2
  exact absurd htext (by decide)

end Runs

end SilverTree
