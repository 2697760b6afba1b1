import SilverTree.Run
import SilverTree.View

/-!
# Sessions of a view

A session is a view in its workbench, from `createPartControl` on: every event first
changes the platform and then reaches the handlers of the view.  In a session every call
is answered and every read succeeds; `SilverTree.Failures` is about the other platforms.

What a view knows about the active editor — the page, the name and the content string
it has read — does not depend on the provider.  `Tracking` is the machine that keeps
only this; every session of either view simulates it, so that a statement about what a
view has read is proved once, about `Tracking`.

## Main definitions

* `Session`, `ViewClass.step`, `ViewClass.openView` — sessions.
* `Tracking`, `Tracking.step` — the abstract machine, `Session.track` — the simulation.

## Main results

* `track_step` — **the simulation.**
* `Tracking.InSync.step` — a view that listens to resources holds the saved text of the
  file it has read, at any time.
-/

namespace SilverTree

variable {P E : Type}

/-! ### Sessions -/

/-- A view in its workbench. -/
structure Session (P E : Type) where
  world : World
  view : ViewState P E

/-- One event: the platform changes, then the handlers of the view run.  An exception
that leaves a handler ends the handler and nothing else. -/
def ViewClass.step (V : ViewClass P E) (s : Session P E) (ev : Event) : Session P E :=
  ⟨s.world.apply ev, stateAfter ((V.handle (s.world.apply ev).api ev).run s.view)⟩

/-- Opening a view: an exception in `createPartControl` means there is no view. -/
def ViewClass.openView (V : ViewClass P E) (w : World) : Except JavaException (Session P E) :=
  match (createPartControl V.provider w.api w.activePart).run ViewState.new with
  | .ok _ v => .ok ⟨w, v⟩
  | .error e _ => .error e

/-- The content string in the installed provider. -/
def Session.content (V : ViewClass P E) (s : Session P E) : Option Content :=
  s.view.viewer.content V.provider

/-- What holds between events: the viewer is ready, and a set page comes with a name. -/
structure Session.Proper (s : Session P E) : Prop where
  ready : s.view.viewer.Ready
  named : s.view.Named

/-! ### What a view tracks -/

/-- A view reduced to what it tracks: the page and the name it compares with, and the
content string it has read. -/
structure Tracking where
  world : World
  page : Option IWorkbenchPage
  currEditorName : Option String
  content : Option Content

namespace Tracking

/-- The test of the refresh-only path. -/
def Current (t : Tracking) (e : IEditorPart) : Prop :=
  t.page.isSome = true ∧ t.currEditorName = some e.getName

instance (t : Tracking) (e : IEditorPart) : Decidable (t.Current e) :=
  inferInstanceAs (Decidable (_ ∧ _))

/-- One event, for a view that listens to resources or not. -/
def step (listens : Bool) (t : Tracking) (ev : Event) : Tracking :=
  match ev with
  | .activated (.editor e) =>
    if e.id = DeviceTreeEditor.ID ∧ ¬ t.Current e then
      ⟨t.world.apply ev, some .window, some e.getName, (t.world.apply ev).contentOf e⟩
    else { t with world := t.world.apply ev }
  | .resource (.postChange _) =>
    if listens then
      { t with
        world := t.world.apply ev
        content := t.page.bind fun _ => (t.world.apply ev).activeContent }
    else { t with world := t.world.apply ev }
  | _ => { t with world := t.world.apply ev }

/-- The start of a view: without an active part nothing is tracked. -/
inductive Start (w : World) : Tracking → Prop
  | idle : w.activePart = none → Start w ⟨w, none, none, none⟩
  | editor {e : IEditorPart} : w.activePart.isSome = true → w.activeEditor = some e →
      Start w ⟨w, some .window, some e.getName, w.contentOf e⟩

theorem step_activated_load (listens : Bool) {t : Tracking} {e : IEditorPart}
    (hid : e.id = DeviceTreeEditor.ID) (hcur : ¬ t.Current e) :
    t.step listens (.activated (.editor e)) =
      ⟨t.world.apply (.activated (.editor e)), some .window, some e.getName,
        (t.world.apply (.activated (.editor e))).contentOf e⟩ :=
  if_pos ⟨hid, hcur⟩

theorem step_activated_keep (listens : Bool) {t : Tracking} {e : IEditorPart}
    (h : e.id = DeviceTreeEditor.ID → t.Current e) :
    t.step listens (.activated (.editor e)) =
      { t with world := t.world.apply (.activated (.editor e)) } :=
  if_neg fun hload => hload.2 (h hload.1)

theorem step_postChange (t : Tracking) (delta : List (IFile × Text)) :
    t.step true (.resource (.postChange delta)) =
      { t with
        world := t.world.apply (.resource (.postChange delta))
        content := t.page.bind fun _ =>
          (t.world.apply (.resource (.postChange delta))).activeContent } := rfl

theorem step_resource_keep {listens : Bool} {t : Tracking} {event : IResourceChangeEvent}
    (h : ¬ (listens = true ∧ ∃ delta, event = .postChange delta)) :
    t.step listens (.resource event) = { t with world := t.world.apply (.resource event) } := by
  cases event with
  | postChange delta =>
    have hl : ¬ listens = true := fun hl => h ⟨hl, delta, rfl⟩
    exact if_neg hl
  | preClose => rfl
  | preDelete => rfl
  | preRefresh => rfl
  | preBuild => rfl
  | postBuild => rfl

end Tracking

/-- What a session tracks. -/
def Session.track (V : ViewClass P E) (s : Session P E) : Tracking :=
  ⟨s.world, s.view.page, s.view.currEditorName, s.content V⟩

/-! ### The simulation -/

section Simulation

variable {V : ViewClass P E}

/-- Opening a view runs `createPartControl` to its end. -/
theorem openView_run {w : World} {s : Session P E} (h : V.openView w = .ok s) :
    s.world = w ∧ (createPartControl V.provider w.api w.activePart).run ViewState.new
      = .ok () s.view := by
  unfold ViewClass.openView at h
  split at h
  · next _ v hrun =>
    cases h
    exact ⟨rfl, hrun⟩
  · cases h

/-- The viewer of a new view shows the answer of its first provider. -/
theorem openView_viewer {w : World} {s : Session P E} (h : V.openView w = .ok s) :
    ∃ c, s.view.viewer = ⟨some (V.provider.getElements (V.provider.new c)).2, true,
      (V.provider.getElements (V.provider.new c)).1⟩ := by
  obtain ⟨c, hviewer, -⟩ := run_createPartControl_world w (openView_run h).2
  rw [Viewer.setInput_setContentProvider_new] at hviewer
  exact ⟨c, hviewer⟩

/-- A view that has been opened is proper, and tracks what `Tracking.Start` says. -/
theorem openView_spec {w : World} {s : Session P E} (h : V.openView w = .ok s) :
    s.Proper ∧ Tracking.Start w (s.track V) := by
  obtain ⟨hworld, hrun⟩ := openView_run h
  obtain ⟨c, hviewer, hstart⟩ := run_createPartControl_world w hrun
  rw [Viewer.setInput_setContentProvider_new] at hviewer
  have hready : s.view.viewer.Ready := by
    rw [hviewer]
    exact Viewer.ready_mk _ _
  have hcontent : s.view.viewer.content V.provider = c := by
    rw [hviewer, Viewer.content_queried_new]
  have htrack : s.track V = ⟨w, s.view.page, s.view.currEditorName, c⟩ := by
    rw [Session.track, Session.content, hworld, hcontent]
  rw [htrack]
  rcases hstart with ⟨hpart, hpage, hname, rfl⟩ | ⟨e, hpart, he, hpage, hname, rfl⟩
  · refine ⟨⟨hready, ?_⟩, ?_⟩
    · intro hset
      rw [hpage] at hset
      cases hset
    · rw [hpage, hname]
      exact .idle hpart
  · refine ⟨⟨hready, ?_⟩, ?_⟩
    · intro _
      rw [hname]
      rfl
    · rw [hpage, hname]
      exact .editor hpart he

/-- The event takes the refresh-only path of `partActivated`: a device tree editor is
activated that the view shows already. -/
def Session.RefreshOnly (s : Session P E) (ev : Event) : Prop :=
  ∃ e, ev = .activated (.editor e) ∧ e.id = DeviceTreeEditor.ID ∧ s.view.Current e

/-- **What an event can do to a view**: nothing, a refresh, or the installation of a new
provider; and what `Tracking` does then. -/
inductive Outcome (V : ViewClass P E) (s : Session P E) (ev : Event) : Prop
  | idle : ¬ s.RefreshOnly ev → (V.step s ev).view = s.view →
      (s.track V).step V.listensToResources ev = { s.track V with world := s.world.apply ev } →
      Outcome V s ev
  | refresh : s.RefreshOnly ev →
      (V.step s ev).view = { s.view with viewer := s.view.viewer.refresh V.provider } →
      (s.track V).step V.listensToResources ev = { s.track V with world := s.world.apply ev } →
      Outcome V s ev
  | load (page : Option IWorkbenchPage) (name : Option String) (c : Option Content)
      (printed : List JavaException) : ¬ s.RefreshOnly ev →
      (V.step s ev).view =
        ⟨page, name, s.view.viewer.setContentProvider V.provider (V.provider.new c), printed⟩ →
      (s.track V).step V.listensToResources ev = ⟨s.world.apply ev, page, name, c⟩ →
      (page.isSome = true → name.isSome = true) →
      Outcome V s ev

theorem outcome_activated_editor {s : Session P E} (hs : s.Proper) (e : IEditorPart) :
    Outcome V s (.activated (.editor e)) := by
  have hview : (V.step s (.activated (.editor e))).view = stateAfter
      ((partActivated V.provider (s.world.apply (.activated (.editor e))).api
        (.editor e)).run s.view) := rfl
  by_cases hid : e.id = DeviceTreeEditor.ID
  · have hrun := run_partActivated_world (K := V.provider)
      (s.world.apply (.activated (.editor e))) s.view (e := e) rfl hid hs.named
    rw [hrun] at hview
    by_cases hcur : s.view.Current e
    · refine .refresh ⟨e, rfl, hid, hcur⟩ (by rw [hview, if_pos hcur]; rfl) ?_
      exact Tracking.step_activated_keep _ fun _ => hcur
    · refine .load (some .window) (some e.getName)
        ((s.world.apply (.activated (.editor e))).contentOf e) s.view.printed ?_
        (by rw [hview, if_neg hcur]; rfl) ?_ fun _ => rfl
      · rintro ⟨e', he', -, h⟩
        cases he'
        exact hcur h
      · exact Tracking.step_activated_load _ hid hcur
  · refine .idle ?_ ?_ (Tracking.step_activated_keep _ fun h => absurd h hid)
    · rintro ⟨e', he', h, -⟩
      cases he'
      exact hid h
    · rw [hview, run_partActivated_of_ne _ (p := .editor e) hid]
      rfl

theorem outcome_activated_view {s : Session P E} (v : IViewPart) :
    Outcome V s (.activated (.view v)) := by
  refine .idle ?_ ?_ rfl
  · rintro ⟨e, he, -⟩
    cases he
  · change stateAfter ((partActivated V.provider _ (.view v)).run s.view) = s.view
    rw [run_partActivated_of_ne _ (IWorkbenchPart.getId_view_ne v)]
    rfl

theorem outcome_postChange {s : Session P E} (hs : s.Proper) (hl : V.listensToResources = true)
    (delta : List (IFile × Text)) : Outcome V s (.resource (.postChange delta)) := by
  obtain ⟨printed, hrun⟩ := run_resourceChanged_world (K := V.provider)
    (s.world.apply (.resource (.postChange delta))) s.view delta
  refine .load s.view.page s.view.currEditorName
    (s.view.page.bind fun _ => (s.world.apply (.resource (.postChange delta))).activeContent)
    printed (by rintro ⟨e, he, -⟩; cases he) ?_
    (by rw [hl]; exact Tracking.step_postChange _ _) hs.named
  change stateAfter ((V.handle _ (.resource (.postChange delta))).run s.view) = _
  simp [ViewClass.handle, hl, IResourceChangeEvent.inMask, hrun]

theorem outcome_resource {s : Session P E} (hs : s.Proper) (event : IResourceChangeEvent) :
    Outcome V s (.resource event) := by
  by_cases h : V.listensToResources = true ∧ ∃ delta, event = .postChange delta
  · obtain ⟨hl, delta, rfl⟩ := h
    exact outcome_postChange hs hl delta
  · -- either the view does not listen or the handler ignores the event
    refine .idle (by rintro ⟨e, he, -⟩; cases he) ?_ (Tracking.step_resource_keep h)
    change stateAfter ((V.handle _ (.resource event)).run s.view) = _
    rw [run_handle_resource_of_not h]
    rfl

theorem outcome {s : Session P E} (hs : s.Proper) (ev : Event) : Outcome V s ev := by
  cases ev with
  | activated part =>
    cases part with
    | editor e => exact outcome_activated_editor hs e
    | view v => exact outcome_activated_view v
  | resource event => exact outcome_resource hs event
  | editorClosed => exact .idle (by rintro ⟨e, he, -⟩; cases he) rfl rfl
  | edited e text => exact .idle (by rintro ⟨e, he, -⟩; cases he) rfl rfl

/-- Between events a view stays proper. -/
theorem Session.Proper.step {s : Session P E} (hs : s.Proper) (ev : Event) :
    (V.step s ev).Proper := by
  cases outcome (V := V) hs ev with
  | idle _ hview _ => exact ⟨by rw [hview]; exact hs.ready, by rw [hview]; exact hs.named⟩
  | refresh _ hview _ =>
    obtain ⟨p, -, hr⟩ := Viewer.refresh_of_ready (K := V.provider) hs.ready
    refine ⟨?_, by rw [hview]; exact hs.named⟩
    rw [hview, hr]
    exact Viewer.ready_mk _ _
  | load page name c printed _ hview _ hnamed =>
    refine ⟨?_, by rw [hview]; exact hnamed⟩
    rw [hview, Viewer.setContentProvider_of_ready hs.ready]
    exact Viewer.ready_mk _ _

/-- **The simulation**: what a session tracks changes as `Tracking` says. -/
theorem track_step {s : Session P E} (hs : s.Proper) (ev : Event) :
    (V.step s ev).track V = (s.track V).step V.listensToResources ev := by
  cases outcome (V := V) hs ev with
  | idle _ hview ht => rw [ht, Session.track, Session.content, hview]; rfl
  | refresh _ hview ht =>
    rw [ht, Session.track, Session.content, hview, Viewer.content_refresh hs.ready]
    rfl
  | load page name c printed _ hview ht _ =>
    rw [ht, Session.track, Session.content, hview,
      Viewer.setContentProvider_of_ready hs.ready, Viewer.content_queried_new]
    rfl

end Simulation

/-! ### Invariants of tracking -/

namespace Tracking

/-- The content string is the saved text of the file it was read from, and there is none
without a page. -/
structure InSync (t : Tracking) : Prop where
  saved : ∀ c, t.content = some c → c.text = t.world.contents c.file
  page_of_content : t.page = none → t.content = none

theorem Start.inSync {w : World} {t : Tracking} (h : Start w t) : t.InSync := by
  cases h with
  | idle _ => exact ⟨(by rintro c hc; cases hc), fun _ => rfl⟩
  | editor _ _ => exact ⟨fun c hc => (World.contentOf_spec hc).2, (by intro hp; cases hp)⟩

/-- **A view that listens to resources holds the saved text of the file it has read**:
every change of a file is followed by a reload. -/
theorem InSync.step {t : Tracking} (h : t.InSync) (ev : Event) : (t.step true ev).InSync := by
  have keep : (t.world.apply ev).contents = t.world.contents →
      InSync { t with world := t.world.apply ev } := by
    intro hcontents
    refine ⟨fun c hc => ?_, h.page_of_content⟩
    change c.text = (t.world.apply ev).contents c.file
    rw [hcontents]
    exact h.saved c hc
  cases ev with
  | editorClosed => exact keep rfl
  | edited e text => exact keep rfl
  | activated part =>
    cases part with
    | view v => exact keep rfl
    | editor e =>
      by_cases hload : e.id = DeviceTreeEditor.ID → t.Current e
      · rw [step_activated_keep _ hload]
        exact keep rfl
      · rw [Classical.not_imp] at hload
        rw [step_activated_load _ hload.1 hload.2]
        exact ⟨fun c hc => (World.contentOf_spec hc).2, by intro hp; cases hp⟩
  | resource event =>
    by_cases hpost : true = true ∧ ∃ delta, event = .postChange delta
    · -- the one event that changes files is the one that reloads
      obtain ⟨-, delta, rfl⟩ := hpost
      rw [step_postChange]
      refine ⟨fun c hc => ?_, fun hp => by rw [show t.page = none from hp]; rfl⟩
      cases hpage : t.page with
      | none => simp [hpage] at hc
      | some pg =>
        simp only [hpage, Option.bind_some] at hc
        exact (World.activeContent_spec hc).2
    · rw [step_resource_keep hpost]
      refine keep ?_
      cases event with
      | postChange delta => exact absurd ⟨rfl, delta, rfl⟩ hpost
      | preClose => rfl
      | preDelete => rfl
      | preRefresh => rfl
      | preBuild => rfl
      | postBuild => rfl

end Tracking

end SilverTree
