import SilverTree.ContentProvider
import SilverTree.MemoryProvider
import SilverTree.Session

/-!
# Where the content string of a view came from

The refresh-only path of `partActivated` trusts that the content string in the
provider was read from a file with the name `currEditorName`; and since the parser is
for device trees, the text should come from a device tree editor.  Content strings
enter through `createPartControl`, `partActivated` and `resourceChanged`, which all
read whatever editor is active at that moment.  Only `partActivated` looks at the kind
of the editor first, and only it renews the name together with the content.

## Main definitions

* `DeviceTreeView`, `MemoryView` — the two views.
* `Tracking.ReadFrom Q` — the content string was read from an editor and a file as `Q`
  says.

## Main results

* `always_readFrom_iff` — the exact condition on a run for any such property that
  `partActivated` establishes.
* `content_named_iff` — **when the content string is always from a file named
  `currEditorName`.**
* `content_fromDeviceTreeEditor_iff` — **when it is always from a device tree editor.**
-/

namespace SilverTree

/-- `DeviceTreeView`: it shows the tree, and listens to the workspace. -/
def DeviceTreeView (lib : SilverLeaves) : ViewClass DeviceTreeContentProvider TreeElement :=
  ⟨DeviceTreeContentProvider.providerClass lib, true⟩

/-- `MemoryView`: it shows the memory map, and has no resource listener. -/
def MemoryView (lib : SilverLeaves) : ViewClass DeviceTreeMemoryProvider Address :=
  ⟨DeviceTreeMemoryProvider.providerClass lib, false⟩

/-! ### Properties of the origin -/

section Origin

variable (Q : Option String → IEditorPart → IFile → Prop)

/-- The content string was read from an editor and a file that `Q` relates to the name
the view compares with. -/
def Tracking.ReadFrom (t : Tracking) : Prop :=
  ∀ c, t.content = some c → Q t.currEditorName c.editor c.file

/-- If the event is a `POST_CHANGE`, then `Q` allows reading the active editor. -/
def Tracking.MayReload (t : Tracking) (ev : Event) : Prop :=
  ∀ delta, ev = .resource (.postChange delta) → t.page.isSome = true →
    ∀ e f, t.world.activeEditor = some e → e.getFile = some f → Q t.currEditorName e f

variable {Q}

theorem Tracking.mayReload_of_not_postChange {t : Tracking} {ev : Event}
    (h : ∀ delta, ev ≠ .resource (.postChange delta)) : t.MayReload Q ev :=
  fun delta hev => absurd hev (h delta)

/-- Reading the active editor gives a content string with its file. -/
theorem World.activeContent_of_getFile {w : World} {e : IEditorPart} {f : IFile}
    (he : w.activeEditor = some e) (hf : e.getFile = some f) :
    w.activeContent = some ⟨w.contents f, e, f, hf⟩ := by
  rw [World.activeContent, he, Option.bind_some, w.contentOf_of_getFile hf]

/-- A reload on `POST_CHANGE` keeps the property exactly when `Q` allows it. -/
theorem Tracking.readFrom_postChange_iff (t : Tracking) (delta : List (IFile × Text)) :
    (t.step true (.resource (.postChange delta))).ReadFrom Q ↔
      t.MayReload Q (.resource (.postChange delta)) := by
  rw [step_postChange]
  constructor
  · intro h delta' _ hpage e f he hf
    obtain ⟨pg, hpg⟩ := Option.isSome_iff_exists.mp hpage
    have hact := World.activeContent_of_getFile
      (w := t.world.apply (.resource (.postChange delta))) he hf
    have hc := h _ (by simp only [hpg, Option.bind_some]; exact hact)
    exact hc
  · intro h c hc
    cases hpg : t.page with
    | none => simp [hpg] at hc
    | some pg =>
      simp only [hpg, Option.bind_some] at hc
      obtain ⟨he, -⟩ := World.activeContent_spec hc
      exact h delta rfl (by rw [hpg]; rfl) c.editor c.file he c.getFile_editor

/-- **One step**: if `partActivated` establishes `Q`, only a reload on `POST_CHANGE` can
break it. -/
theorem Tracking.readFrom_step_iff {listens : Bool} {t : Tracking} {ev : Event}
    (hQ : ∀ e f, e.id = DeviceTreeEditor.ID → e.getFile = some f → Q (some e.getName) e f)
    (h : t.ReadFrom Q) :
    (t.step listens ev).ReadFrom Q ↔ (listens = true → t.MayReload Q ev) := by
  cases ev with
  | editorClosed => exact iff_of_true h fun _ => mayReload_of_not_postChange (by simp)
  | edited e text => exact iff_of_true h fun _ => mayReload_of_not_postChange (by simp)
  | activated part =>
    refine iff_of_true ?_ fun _ => mayReload_of_not_postChange (by simp)
    cases part with
    | view v => exact h
    | editor e =>
      by_cases hload : e.id = DeviceTreeEditor.ID → t.Current e
      · rw [step_activated_keep _ hload]
        exact h
      · rw [Classical.not_imp] at hload
        rw [step_activated_load _ hload.1 hload.2]
        intro c hc
        have hed := (World.contentOf_spec hc).1
        have hc' := hQ c.editor c.file (by rw [hed]; exact hload.1) c.getFile_editor
        rw [hed] at hc' ⊢
        exact hc'
  | resource event =>
    by_cases hpost : listens = true ∧ ∃ delta, event = .postChange delta
    · obtain ⟨rfl, delta, rfl⟩ := hpost
      rw [readFrom_postChange_iff]
      simp
    · rw [step_resource_keep hpost]
      refine iff_of_true h fun hl => mayReload_of_not_postChange ?_
      intro delta hev
      cases hev
      exact hpost ⟨hl, delta, rfl⟩

variable {P E : Type} {V : ViewClass P E}

/-- **The exact condition on a run** for a property of the origin that `partActivated`
establishes. -/
theorem always_readFrom_iff
    (hQ : ∀ e f, e.id = DeviceTreeEditor.ID → e.getFile = some f → Q (some e.getName) e f)
    {s : Session P E} (hs : s.Proper) (es : List Event) :
    Run.Always V.step (fun s => (s.track V).ReadFrom Q) s es ↔
      (s.track V).ReadFrom Q ∧
        Run.EachStep V.step
          (fun s ev => V.listensToResources = true → (s.track V).MayReload Q ev) s es := by
  refine Run.always_iff_eachStep (I := Session.Proper) (fun s ev hs => hs.step ev) ?_ hs
  intro s ev hs hread
  rw [track_step hs]
  exact Tracking.readFrom_step_iff hQ hread

/-- For a view that listens to resources, every step is under the condition. -/
theorem always_readFrom_iff_of_listens (hl : V.listensToResources = true)
    (hQ : ∀ e f, e.id = DeviceTreeEditor.ID → e.getFile = some f → Q (some e.getName) e f)
    {s : Session P E} (hs : s.Proper) (es : List Event) :
    Run.Always V.step (fun s => (s.track V).ReadFrom Q) s es ↔
      (s.track V).ReadFrom Q ∧
        Run.EachStep V.step (fun s ev => (s.track V).MayReload Q ev) s es := by
  refine (always_readFrom_iff hQ hs es).trans (and_congr_right fun _ => ?_)
  refine Run.eachStep_congr (I := fun _ => True) (fun _ _ _ _ => trivial) ?_ trivial
  intro s ev _
  exact ⟨fun h => h hl, fun h _ => h⟩

end Origin

/-! ### The name -/

/-- **The content string is from a file named `currEditorName`, in every state of a
session, exactly when** at every `POST_CHANGE` the active editor, if it is open on a
file, has that name. -/
theorem content_named_iff (lib : SilverLeaves) {w : World}
    {s : Session DeviceTreeContentProvider TreeElement}
    (hopen : (DeviceTreeView lib).openView w = .ok s) (es : List Event) :
    Run.Always (DeviceTreeView lib).step
        (fun s => ∀ c, s.content (DeviceTreeView lib) = some c →
          s.view.currEditorName = some c.file.name) s es ↔
      Run.EachStep (DeviceTreeView lib).step
        (fun s ev => ∀ delta, ev = .resource (.postChange delta) → s.view.page.isSome = true →
          ∀ e f, s.world.activeEditor = some e → e.getFile = some f →
            s.view.currEditorName = some f.name) s es := by
  obtain ⟨hproper, hstart⟩ := openView_spec hopen
  have hiff := always_readFrom_iff_of_listens (V := DeviceTreeView lib) rfl
    (Q := fun name _ f => name = some f.name)
    (fun e f _ hf => by rw [IEditorPart.getName_of_getFile hf]) hproper es
  -- a new view has read the editor it is named after
  have hfirst : (s.track (DeviceTreeView lib)).ReadFrom fun name _ f => name = some f.name := by
    generalize s.track (DeviceTreeView lib) = t at hstart
    cases hstart with
    | idle _ => intro c hc; cases hc
    | editor _ _ =>
      intro c hc
      obtain ⟨rfl, -⟩ := World.contentOf_spec hc
      rw [IEditorPart.getName_of_getFile c.getFile_editor]
  exact hiff.trans (and_iff_right hfirst)

/-- Activating the other `x.dts` and saving it keeps the names together. -/
theorem content_named_sample :
    ∃ s, (DeviceTreeView attributeLibrary).openView sampleWorld = .ok s ∧
      Run.Always (DeviceTreeView attributeLibrary).step
        (fun s => ∀ c, s.content (DeviceTreeView attributeLibrary) = some c →
          s.view.currEditorName = some c.file.name) s
        [.activated (.editor editorX'), .resource (.postChange [(fileX', [100, 59])])] := by
  refine ⟨_, rfl, (content_named_iff attributeLibrary (w := sampleWorld) rfl _).mpr
    ⟨?_, ?_, trivial⟩⟩
  · intro delta hev
    cases hev
  · rintro delta - - e f he hf
    cases he
    cases hf
    rfl

/-- Activating a text file leaves no trace in the view, and a workspace change then
loads it under the name of the device tree file. -/
theorem content_named_fails :
    ¬ ∀ (lib : SilverLeaves) (w : World) (s : Session DeviceTreeContentProvider TreeElement),
      (DeviceTreeView lib).openView w = .ok s → ∀ es,
        Run.Always (DeviceTreeView lib).step
          (fun s => ∀ c, s.content (DeviceTreeView lib) = some c →
            s.view.currEditorName = some c.file.name) s es := by
  intro h
  have hrun := h attributeLibrary sampleWorld _ rfl
    [.activated (.editor editorNotes), .resource (.postChange [])]
  have hname := hrun.2.2 _ rfl
  revert hname
  decide

/-! ### The kind of the editor -/

section Kind

/-- The view is created while the active editor, if it is open on a file, is a device
tree editor. -/
def World.OpensOnDeviceTree (w : World) : Prop :=
  w.activePart.isSome = true → ∀ e f, w.activeEditor = some e → e.getFile = some f →
    e.id = DeviceTreeEditor.ID

/-- The content string of a new view is from a device tree editor exactly when that is
what is active. -/
theorem Tracking.Start.readFrom_iff {w : World} {t : Tracking} (h : Start w t) :
    (t.ReadFrom fun _ e _ => e.id = DeviceTreeEditor.ID) ↔ w.OpensOnDeviceTree := by
  cases h with
  | idle hpart =>
    refine iff_of_true (by intro c hc; cases hc) ?_
    intro hsome
    rw [hpart] at hsome
    cases hsome
  | editor hpart he =>
    constructor
    · intro hread _ e' f he' hf
      rw [he] at he'
      cases he'
      exact hread _ (w.contentOf_of_getFile hf)
    · intro hopens c hc
      obtain ⟨rfl, -⟩ := World.contentOf_spec hc
      exact hopens hpart c.editor c.file he c.getFile_editor

/-- **The content string of either view is from a device tree editor, in every state of
a session, exactly when** the view is created on one and, for `DeviceTreeView`, one is
active at every `POST_CHANGE`; editors that are not open on a file do no harm. -/
theorem content_fromDeviceTreeEditor_iff (lib : SilverLeaves) (w : World) (es : List Event) :
    (∀ s, (DeviceTreeView lib).openView w = .ok s →
      (Run.Always (DeviceTreeView lib).step
          (fun s => ∀ c, s.content (DeviceTreeView lib) = some c →
            c.editor.id = DeviceTreeEditor.ID) s es ↔
        w.OpensOnDeviceTree ∧ Run.EachStep (DeviceTreeView lib).step
          (fun s ev => ∀ delta, ev = .resource (.postChange delta) → s.view.page.isSome = true →
            ∀ e f, s.world.activeEditor = some e → e.getFile = some f →
              e.id = DeviceTreeEditor.ID) s es)) ∧
    (∀ s, (MemoryView lib).openView w = .ok s →
      (Run.Always (MemoryView lib).step
          (fun s => ∀ c, s.content (MemoryView lib) = some c →
            c.editor.id = DeviceTreeEditor.ID) s es ↔ w.OpensOnDeviceTree)) := by
  constructor
  · intro s hopen
    obtain ⟨hproper, hstart⟩ := openView_spec hopen
    have hiff := always_readFrom_iff_of_listens (V := DeviceTreeView lib) rfl
      (Q := fun _ e _ => e.id = DeviceTreeEditor.ID) (fun _ _ hid _ => hid) hproper es
    exact hiff.trans (and_congr_left' hstart.readFrom_iff)
  · intro s hopen
    obtain ⟨hproper, hstart⟩ := openView_spec hopen
    have hiff := always_readFrom_iff (V := MemoryView lib)
      (Q := fun _ e _ => e.id = DeviceTreeEditor.ID) (fun _ _ hid _ => hid) hproper es
    refine hiff.trans ((and_congr_left' hstart.readFrom_iff).trans (and_iff_left ?_))
    -- without a resource listener there is no condition on the steps
    exact Run.eachStep_of_forall (fun _ _ hl => nomatch hl) es s

theorem opensOnDeviceTree_sampleWorld : sampleWorld.OpensOnDeviceTree := by
  rintro - e f he -
  cases he
  rfl

/-- Both views stay with device trees when only device tree editors are active. -/
theorem content_fromDeviceTreeEditor_sample :
    (∃ s, (DeviceTreeView attributeLibrary).openView sampleWorld = .ok s ∧
      Run.Always (DeviceTreeView attributeLibrary).step
        (fun s => ∀ c, s.content (DeviceTreeView attributeLibrary) = some c →
          c.editor.id = DeviceTreeEditor.ID) s
        [.activated (.editor editorX'), .resource (.postChange [(fileX', [100, 59])])]) ∧
    ∃ s, (MemoryView attributeLibrary).openView sampleWorld = .ok s ∧
      Run.Always (MemoryView attributeLibrary).step
        (fun s => ∀ c, s.content (MemoryView attributeLibrary) = some c →
          c.editor.id = DeviceTreeEditor.ID) s
        [.activated (.editor editorX'), .resource (.postChange [(fileX', [100, 59])])] := by
  obtain ⟨htree, hmemory⟩ := content_fromDeviceTreeEditor_iff attributeLibrary sampleWorld
    [.activated (.editor editorX'), .resource (.postChange [(fileX', [100, 59])])]
  refine ⟨⟨_, rfl, (htree _ rfl).mpr ⟨opensOnDeviceTree_sampleWorld, ?_, ?_, trivial⟩⟩,
    ⟨_, rfl, (hmemory _ rfl).mpr opensOnDeviceTree_sampleWorld⟩⟩
  · intro delta hev
    cases hev
  · rintro delta - - e f he -
    cases he
    rfl

/-- A view that is created while a text editor is active reads the text file. -/
theorem content_fromDeviceTreeEditor_fails :
    ¬ ∀ (lib : SilverLeaves) (w : World) (es : List Event),
      (∀ s, (DeviceTreeView lib).openView w = .ok s →
        Run.Always (DeviceTreeView lib).step
          (fun s => ∀ c, s.content (DeviceTreeView lib) = some c →
            c.editor.id = DeviceTreeEditor.ID) s es) ∧
      ∀ s, (MemoryView lib).openView w = .ok s →
        Run.Always (MemoryView lib).step
          (fun s => ∀ c, s.content (MemoryView lib) = some c →
            c.editor.id = DeviceTreeEditor.ID) s es := by
  intro h
  have hrun :=
    (h attributeLibrary (sampleWorld.apply (.activated (.editor editorNotes))) []).1 _ rfl
  have hid := hrun _ rfl
  revert hid
  decide

end Kind

end SilverTree
