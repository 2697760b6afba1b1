import SilverTree.Provenance

/-!
# What the tree view shows

Between events, `DeviceTreeView` shows the tree of the content string in its provider.
Because it reloads on every `POST_CHANGE`, that string is the saved text of the file it
was read from.  Whether it is the tree of the editor that was just activated is another
matter: the refresh-only path of `partActivated` compares bare names.

## Main definitions

* `Session.Displays` — the viewer shows the tree of the installed content string.
* `Session.loadedElements` — the elements of the file the view has loaded, as it is
  saved now.

## Main results

* `Session.Displays.step` — every event keeps `Displays`.
* `activation_shows_file_iff` — **when every activation of a device tree editor ends
  with the tree of its file on display.**
-/

namespace SilverTree

variable {lib : SilverLeaves}

/-- A tree view in its workbench. -/
abbrev TreeSession := Session DeviceTreeContentProvider TreeElement

variable (lib) in
/-- The viewer shows the tree of the content string in its provider. -/
def Session.Displays (s : TreeSession) : Prop :=
  ∃ p, s.view.viewer.contentProvider = some p ∧ p.Faithful lib ∧
    s.view.viewer.elements = elementsOfContent lib p.content

/-- The viewer after a query of a provider that is faithful. -/
theorem displays_of_queried {s : TreeSession} {p : DeviceTreeContentProvider} (hp : p.Faithful lib)
    (h : s.view.viewer = ⟨some (p.getElements lib).2, true, (p.getElements lib).1⟩) :
    s.Displays lib := by
  refine ⟨(p.getElements lib).2, by rw [h], hp.parse, ?_⟩
  rw [h]
  change (p.getElements lib).1 = elementsOfContent lib (p.parse lib).content
  rw [getElements_eq_elementsOf hp, DeviceTreeContentProvider.parse_content]

theorem displays_openView {w : World} {s : TreeSession}
    (h : (DeviceTreeView lib).openView w = .ok s) : s.Displays lib := by
  obtain ⟨c, hviewer⟩ := openView_viewer h
  exact displays_of_queried (DeviceTreeContentProvider.faithful_new lib c) hviewer

/-- **Every event keeps the view showing the tree of its content string.** -/
theorem Session.Displays.step {s : TreeSession} (h : s.Displays lib) (hs : s.Proper) (ev : Event) :
    ((DeviceTreeView lib).step s ev).Displays lib := by
  cases outcome (V := DeviceTreeView lib) hs ev with
  | idle _ hview _ =>
    unfold Session.Displays
    rw [hview]
    exact h
  | refresh _ hview _ =>
    obtain ⟨p, hp, hfaithful, -⟩ := h
    obtain ⟨q, hq, hrefresh⟩ :=
      Viewer.refresh_of_ready (K := (DeviceTreeView lib).provider) hs.ready
    rw [hp] at hq
    cases hq
    exact displays_of_queried hfaithful (by rw [hview]; exact hrefresh)
  | load page name c printed _ hview _ _ =>
    refine displays_of_queried (DeviceTreeContentProvider.faithful_new lib c) ?_
    rw [hview]
    exact Viewer.setContentProvider_of_ready hs.ready _

theorem Session.Displays.elements_eq {s : TreeSession} (h : s.Displays lib) :
    s.view.viewer.elements = elementsOfContent lib (s.content (DeviceTreeView lib)) := by
  obtain ⟨p, hp, -, hel⟩ := h
  rw [hel, Session.content, Viewer.content, hp]
  rfl

/-! ### Activations -/

variable (lib) in
/-- The elements of the file the view has loaded, as it is saved now. -/
def Session.loadedElements (s : TreeSession) : List TreeElement :=
  match s.content (DeviceTreeView lib) with
  | some c => elementsOf lib (s.world.contents c.file)
  | none => []

variable (lib) in
/-- The invariant of a tree view between events. -/
structure Session.Sound (s : TreeSession) : Prop where
  proper : s.Proper
  displays : s.Displays lib
  inSync : (s.track (DeviceTreeView lib)).InSync

theorem sound_openView {w : World} {s : TreeSession}
    (h : (DeviceTreeView lib).openView w = .ok s) : s.Sound lib :=
  ⟨(openView_spec h).1, displays_openView h, (openView_spec h).2.inSync⟩

theorem Session.Sound.step {s : TreeSession} (h : s.Sound lib) (ev : Event) :
    ((DeviceTreeView lib).step s ev).Sound lib := by
  refine ⟨h.proper.step ev, h.displays.step h.proper ev, ?_⟩
  rw [track_step h.proper]
  exact h.inSync.step ev

/-- A refresh shows the elements of the loaded file: its text has not changed since. -/
theorem Session.Sound.elements_eq_loadedElements {s : TreeSession} (h : s.Sound lib) :
    s.view.viewer.elements = s.loadedElements lib := by
  rw [h.displays.elements_eq, Session.loadedElements]
  cases hc : s.content (DeviceTreeView lib) with
  | none => rfl
  | some c =>
    have htext : c.text = s.world.contents c.file := h.inSync.saved c hc
    change elementsOf lib c.text = elementsOf lib (s.world.contents c.file)
    rw [htext]

/-- After a reload the view shows the tree of the activated editor's file. -/
theorem elements_activated_reload {s : TreeSession} (h : s.Sound lib) {e : IEditorPart} {F : IFile}
    (hid : e.id = DeviceTreeEditor.ID) (hF : e.input = .file F) (hcur : ¬ s.view.Current e) :
    ((DeviceTreeView lib).step s (.activated (.editor e))).view.viewer.elements
      = elementsOf lib (s.world.contents F) := by
  have hfile : e.getFile = some F := by rw [IEditorPart.getFile, hF]; rfl
  have hload : (s.track (DeviceTreeView lib)).step true (.activated (.editor e)) =
      ⟨s.world.apply (.activated (.editor e)), some .window, some e.getName,
        (s.world.apply (.activated (.editor e))).contentOf e⟩ :=
    Tracking.step_activated_load _ hid hcur
  have htrack := track_step (V := DeviceTreeView lib) h.proper (.activated (.editor e))
  rw [(h.step (.activated (.editor e))).displays.elements_eq]
  have hcontent : ((DeviceTreeView lib).step s (.activated (.editor e))).content
      (DeviceTreeView lib) = (s.world.apply (.activated (.editor e))).contentOf e :=
    congrArg Tracking.content (htrack.trans hload)
  rw [hcontent, World.contentOf_of_getFile _ hfile]
  rfl

/-- After a refresh it shows the elements of the file it had loaded before. -/
theorem elements_activated_refresh {s : TreeSession} (h : s.Sound lib) {e : IEditorPart}
    (hcur : s.view.Current e) :
    ((DeviceTreeView lib).step s (.activated (.editor e))).view.viewer.elements
      = s.loadedElements lib := by
  have hkeep : (s.track (DeviceTreeView lib)).step true (.activated (.editor e)) =
      { s.track (DeviceTreeView lib) with world := s.world.apply (.activated (.editor e)) } :=
    Tracking.step_activated_keep _ fun _ => hcur
  have htrack := track_step (V := DeviceTreeView lib) h.proper (.activated (.editor e))
  have hcontent : ((DeviceTreeView lib).step s (.activated (.editor e))).content
      (DeviceTreeView lib) = s.content (DeviceTreeView lib) :=
    congrArg Tracking.content (htrack.trans hkeep)
  rw [(h.step (.activated (.editor e))).elements_eq_loadedElements, Session.loadedElements,
    Session.loadedElements, hcontent]
  rfl

/-- **Every activation of a device tree editor on a file `F` ends with the elements of
`F`'s saved content on display exactly when**, each time the refresh-only path is taken,
the file the view has loaded yields the same elements as `F`; in particular when it is
`F`. -/
theorem activation_shows_file_iff (lib : SilverLeaves) {w : World} {s : TreeSession}
    (hopen : (DeviceTreeView lib).openView w = .ok s) (es : List Event) :
    Run.EachStep (DeviceTreeView lib).step
        (fun s ev => ∀ e F, ev = .activated (.editor e) → e.id = DeviceTreeEditor.ID →
          e.input = .file F →
          ((DeviceTreeView lib).step s ev).view.viewer.elements
            = elementsOf lib (((DeviceTreeView lib).step s ev).world.contents F)) s es ↔
      Run.EachStep (DeviceTreeView lib).step
        (fun s ev => ∀ e F, ev = .activated (.editor e) → e.id = DeviceTreeEditor.ID →
          e.input = .file F → s.view.Current e →
          s.loadedElements lib = elementsOf lib (s.world.contents F)) s es := by
  refine Run.eachStep_congr (I := fun s => s.Sound lib) (fun s ev hs _ => hs.step ev) ?_
    (sound_openView hopen)
  intro s ev hs
  constructor
  · rintro h e F rfl hid hF hcur
    rw [← elements_activated_refresh hs hcur]
    exact h e F rfl hid hF
  · rintro h e F rfl hid hF
    by_cases hcur : s.view.Current e
    · rw [elements_activated_refresh hs hcur]
      exact h e F rfl hid hF hcur
    · exact elements_activated_reload hs hid hF hcur

/-- Coming back to the editor that is shown already, after its file has been saved. -/
theorem activation_shows_file_sample :
    ∃ s, (DeviceTreeView attributeLibrary).openView sampleWorld = .ok s ∧
      Run.EachStep (DeviceTreeView attributeLibrary).step
        (fun s ev => ∀ e F, ev = .activated (.editor e) → e.id = DeviceTreeEditor.ID →
          e.input = .file F →
          ((DeviceTreeView attributeLibrary).step s ev).view.viewer.elements
            = elementsOf attributeLibrary
              (((DeviceTreeView attributeLibrary).step s ev).world.contents F)) s
        [.resource (.postChange [(fileX, [100, 59])]), .activated (.editor editorX)] := by
  refine ⟨_, rfl, (activation_shows_file_iff attributeLibrary (w := sampleWorld) rfl _).mpr
    ⟨?_, ?_, trivial⟩⟩
  · intro e F hev
    cases hev
  · rintro e F hev - hF -
    cases hev
    cases hF
    rfl

/-- Activating the other `x.dts` leaves the tree of the first one on display. -/
theorem activation_shows_file_fails :
    ¬ ∀ (lib : SilverLeaves) (w : World) (s : TreeSession),
      (DeviceTreeView lib).openView w = .ok s → ∀ es,
        Run.EachStep (DeviceTreeView lib).step
          (fun s ev => ∀ e F, ev = .activated (.editor e) → e.id = DeviceTreeEditor.ID →
            e.input = .file F →
            ((DeviceTreeView lib).step s ev).view.viewer.elements
              = elementsOf lib (((DeviceTreeView lib).step s ev).world.contents F)) s es := by
  intro h
  have hrun := h attributeLibrary sampleWorld _ rfl [.activated (.editor editorX')]
  have hshown := hrun.1 editorX' fileX' rfl rfl rfl
  have htext := congrArg (List.map fun e => e.object.token.text) hshown
  revert htext
  decide

end SilverTree
