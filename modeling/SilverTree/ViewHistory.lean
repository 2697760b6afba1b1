import SilverTree.MemoryTable
import SilverTree.TreeView

/-!
# What a view shows, from its history

A view keeps a page, a name and a content string, and an event changes them depending
on what they are.  What they are after a whole run can be told from the events alone:
the name is that of the device tree editor activated last, and an activation reads a
file exactly when it switches to another name.  The text never matters for the question
which file is read.

The runs are those of `Session`: no call of the platform fails.  A failed call can leave a
view that no activation brings back, which is the subject of `SilverTree.FaultyRuns`.

## Main definitions

* `Event.activatedName` — the name a device tree editor is activated under.
* `Tracking.shownName` — the name a view compares with.
* `Following`, `Following.step` — which editor's file a view shows, without any text.
* `LastSwitch` — the last activation of a run that switches to another name.

## Main results

* `shownName_foldl` — the name is that of the last activation.
* `tree_follows_source` — **the tree on display is that of the saved file of the editor
  `Following` says.**
* `memory_of_lastSwitch` — **the memory table shows the file of the last switch, as it was
  saved then, until the first activation after it.**
* `views_recover` — **two activations under different names bring both views back** from
  every state of such a run.
-/

namespace SilverTree

/-! ### Names -/

/-- The name a device tree editor is activated under; other events have none. -/
def Event.activatedName : Event → Option String
  | .activated (.editor e) => if e.id = DeviceTreeEditor.ID then some e.getName else none
  | _ => none

@[simp] theorem Event.activatedName_resource (event : IResourceChangeEvent) :
    (Event.resource event).activatedName = none := rfl

theorem Event.activatedName_editor {e : IEditorPart} (hid : e.id = DeviceTreeEditor.ID) :
    (Event.activated (.editor e)).activatedName = some e.getName := if_pos hid

/-- Only device tree editors are activated under a name. -/
theorem Event.exists_of_activatedName {ev : Event} {n : String} (h : ev.activatedName = some n) :
    ∃ e, ev = .activated (.editor e) ∧ e.id = DeviceTreeEditor.ID ∧ e.getName = n := by
  unfold Event.activatedName at h
  split at h
  · next e =>
    split at h
    · next hid =>
      cases h
      exact ⟨e, rfl, hid, rfl⟩
    · cases h
  · cases h

/-- The name of the device tree editor activated last, `name` being the one before. -/
def lastName (name : Option String) (es : List Event) : Option String :=
  es.foldl (fun name ev => ev.activatedName.or name) name

theorem lastName_append (name : Option String) (es es' : List Event) :
    lastName name (es ++ es') = lastName (lastName name es) es' := List.foldl_append

/-- Events that activate no device tree editor keep the name. -/
theorem lastName_of_none {es : List Event} (h : ∀ ev ∈ es, ev.activatedName = none)
    (name : Option String) : lastName name es = name := by
  induction es with
  | nil => rfl
  | cons ev es ih =>
    have hfirst : ev.activatedName.or name = name := by
      rw [h ev List.mem_cons_self, Option.none_or]
    change lastName (ev.activatedName.or name) es = name
    rw [hfirst]
    exact ih fun ev' hev' => h ev' (List.mem_cons_of_mem _ hev')

namespace Tracking

/-- The name a view compares with: none as long as it has no page. -/
def shownName (t : Tracking) : Option String := t.page.bind fun _ => t.currEditorName

theorem current_iff (t : Tracking) (e : IEditorPart) :
    t.Current e ↔ t.shownName = some e.getName := by
  unfold Current shownName
  cases t.page with
  | none => simp
  | some pg => simp

/-- An event reads a file by way of `partActivated`: a device tree editor is activated
under another name than the one shown. -/
def Switches (t : Tracking) (e : IEditorPart) : Prop :=
  e.id = DeviceTreeEditor.ID ∧ t.shownName ≠ some e.getName

/-- **What an event does to what a view tracks.**  Apart from the world, only a switch
and a `POST_CHANGE` that is listened to change anything. -/
theorem step_cases (listens : Bool) (t : Tracking) (ev : Event) :
    (∃ e, ev = .activated (.editor e) ∧ t.Switches e ∧
      t.step listens ev = ⟨t.world.apply ev, some .window, some e.getName,
        (t.world.apply ev).contentOf e⟩) ∨
    (∃ delta, ev = .resource (.postChange delta) ∧ listens = true ∧
      t.step listens ev = { t with
        world := t.world.apply ev
        content := t.page.bind fun _ => (t.world.apply ev).activeContent }) ∨
    ((∀ e, ev = .activated (.editor e) → ¬ t.Switches e) ∧
      (listens = true → ∀ delta, ev ≠ .resource (.postChange delta)) ∧
      t.step listens ev = { t with world := t.world.apply ev }) := by
  cases ev with
  | editorClosed => exact Or.inr (Or.inr ⟨by simp, by simp, rfl⟩)
  | edited e text => exact Or.inr (Or.inr ⟨by simp, by simp, rfl⟩)
  | activated part =>
    cases part with
    | view v => exact Or.inr (Or.inr ⟨by simp, by simp, rfl⟩)
    | editor e =>
      by_cases hsw : t.Switches e
      · have hcur : ¬ t.Current e := fun hcur => hsw.2 ((t.current_iff e).mp hcur)
        exact Or.inl ⟨e, rfl, hsw, step_activated_load _ hsw.1 hcur⟩
      · have hkeep : e.id = DeviceTreeEditor.ID → t.Current e := by
          intro hid
          by_contra hcur
          exact hsw ⟨hid, fun hname => hcur ((t.current_iff e).mpr hname)⟩
        refine Or.inr (Or.inr ⟨?_, by simp, step_activated_keep _ hkeep⟩)
        rintro e' he'
        cases he'
        exact hsw
  | resource event =>
    by_cases hpost : listens = true ∧ ∃ delta, event = .postChange delta
    · obtain ⟨rfl, delta, rfl⟩ := hpost
      exact Or.inr (Or.inl ⟨delta, rfl, rfl, step_postChange t delta⟩)
    · refine Or.inr (Or.inr ⟨by simp, ?_, step_resource_keep hpost⟩)
      intro hl delta hev
      cases hev
      exact hpost ⟨hl, delta, rfl⟩

/-- **One event** changes the name a view compares with exactly if it activates a device
tree editor. -/
theorem shownName_step (listens : Bool) (t : Tracking) (ev : Event) :
    (t.step listens ev).shownName = ev.activatedName.or t.shownName := by
  rcases step_cases listens t ev with ⟨e, rfl, hsw, hstep⟩ | ⟨delta, rfl, -, hstep⟩ |
    ⟨hno, -, hstep⟩
  · rw [hstep, Event.activatedName_editor hsw.1]
    rfl
  · rw [hstep]
    rfl
  · rw [hstep]
    -- an activation that is no switch is one under the name that is shown
    cases hname : ev.activatedName with
    | none => rfl
    | some n =>
      obtain ⟨e, rfl, hid, rfl⟩ := Event.exists_of_activatedName hname
      by_contra hne
      exact hno e rfl ⟨hid, hne⟩

/-- **The name is that of the last activation** of a device tree editor, whether the view
listens to resources or not. -/
theorem shownName_foldl (listens : Bool) (es : List Event) : ∀ t : Tracking,
    (es.foldl (step listens) t).shownName = lastName t.shownName es := by
  induction es with
  | nil => intro t; rfl
  | cons ev es ih =>
    intro t
    rw [List.foldl_cons, ih, shownName_step]
    rfl

end Tracking

/-! ### The editor whose file is shown -/

/-- Which editor's file a view shows: the name it compares with, the active editor, and
the editor it has read. -/
structure Following where
  shownName : Option String
  activeEditor : Option IEditorPart
  source : Option IEditorPart
  deriving DecidableEq

namespace Following

/-- One event, for a view that listens to resources or not.  The texts of the files do
not occur. -/
def step (listens : Bool) (f : Following) : Event → Following
  | .activated (.editor e) =>
    if e.id = DeviceTreeEditor.ID then
      ⟨some e.getName, some e, if f.shownName = some e.getName then f.source else some e⟩
    else { f with activeEditor := some e }
  | .editorClosed => { f with activeEditor := none }
  | .resource (.postChange _) =>
    if listens = true ∧ f.shownName.isSome = true then { f with source := f.activeEditor } else f
  | _ => f

/-- A view that has just been opened has read the active editor, if a part was active. -/
def opened (w : World) : Following :=
  if w.activePart.isSome then ⟨w.activeEditor.map IEditorPart.getName, w.activeEditor,
    w.activeEditor⟩
  else ⟨none, w.activeEditor, none⟩

end Following

/-- What a tracked view shows is the saved content of the file of the source. -/
structure Tracking.Follows (t : Tracking) (f : Following) : Prop where
  shownName : t.shownName = f.shownName
  page : t.page.isSome = f.shownName.isSome
  activeEditor : t.world.activeEditor = f.activeEditor
  content : t.content = f.source.bind t.world.contentOf
  source_of_shownName : f.shownName = none → f.source = none

theorem Tracking.Start.follows {w : World} {t : Tracking} (h : Start w t) :
    t.Follows (.opened w) := by
  cases h with
  | idle hnone =>
    have hopened : Following.opened w = ⟨none, w.activeEditor, none⟩ := by
      unfold Following.opened
      rw [hnone]
      rfl
    rw [hopened]
    exact ⟨rfl, rfl, rfl, rfl, fun _ => rfl⟩
  | @editor e hsome he =>
    have hopened : Following.opened w = ⟨some e.getName, some e, some e⟩ := by
      unfold Following.opened
      rw [if_pos hsome, he]
      rfl
    rw [hopened]
    exact ⟨rfl, rfl, he, rfl, by intro h; cases h⟩

/-- **Every event keeps a view that listens to resources showing the saved file of its
source**: the only event that changes files is the one on which it reads again. -/
theorem Tracking.Follows.step {t : Tracking} {f : Following} (h : t.Follows f) (ev : Event) :
    (t.step true ev).Follows (f.step true ev) := by
  have hname : (t.step true ev).shownName = ev.activatedName.or f.shownName := by
    rw [Tracking.shownName_step, h.shownName]
  cases ev with
  | editorClosed => exact ⟨hname, h.page, rfl, h.content, h.source_of_shownName⟩
  | edited e text => exact ⟨hname, h.page, h.activeEditor, h.content, h.source_of_shownName⟩
  | activated part =>
    cases part with
    | view v => exact ⟨hname, h.page, h.activeEditor, h.content, h.source_of_shownName⟩
    | editor e =>
      by_cases hid : e.id = DeviceTreeEditor.ID
      · have hf : f.step true (.activated (.editor e)) = ⟨some e.getName, some e,
            if f.shownName = some e.getName then f.source else some e⟩ := if_pos hid
        rw [Event.activatedName_editor hid] at hname
        rw [hf]
        by_cases hcur : f.shownName = some e.getName
        · -- the refresh-only path keeps the source
          have hkeep := Tracking.step_activated_keep true
            fun _ => (t.current_iff e).mpr (h.shownName.trans hcur)
          refine ⟨hname, ?_, by rw [hkeep]; rfl, ?_, by intro hnone; cases hnone⟩
          · rw [hkeep]
            exact h.page.trans (by rw [hcur])
          · rw [hkeep, if_pos hcur]
            exact h.content
        · have hload := Tracking.step_activated_load true hid
            fun hc => hcur (h.shownName.symm.trans ((t.current_iff e).mp hc))
          refine ⟨hname, by rw [hload]; rfl, by rw [hload]; rfl, ?_, by intro hnone; cases hnone⟩
          rw [hload, if_neg hcur]
          rfl
      · have hf : f.step true (.activated (.editor e)) = { f with activeEditor := some e } :=
          if_neg hid
        have hnone : (Event.activated (.editor e)).activatedName = none := if_neg hid
        have hkeep := Tracking.step_activated_keep (t := t) true (e := e) fun hd => absurd hd hid
        rw [hnone] at hname
        rw [hf]
        refine ⟨hname, by rw [hkeep]; exact h.page, by rw [hkeep]; rfl, ?_,
          h.source_of_shownName⟩
        rw [hkeep]
        exact h.content
  | resource event =>
    cases event with
    | postChange delta =>
      rw [Tracking.step_postChange] at hname ⊢
      cases hshown : f.shownName with
      | none =>
        have hsource := h.source_of_shownName hshown
        have hf : f.step true (.resource (.postChange delta)) = f := by
          simp [Following.step, hshown]
        rw [hf]
        refine ⟨hname, h.page, h.activeEditor, ?_, h.source_of_shownName⟩
        have hpage : t.page = none := by
          rw [← Option.isNone_iff_eq_none, ← Option.not_isSome, h.page, hshown]
          rfl
        rw [hpage, hsource]
        rfl
      | some n =>
        have hf : f.step true (.resource (.postChange delta))
            = { f with source := f.activeEditor } := by
          simp [Following.step, hshown]
        rw [hf]
        refine ⟨hname, h.page, h.activeEditor, ?_, ?_⟩
        · obtain ⟨pg, hpage⟩ : ∃ pg, t.page = some pg := by
            rw [← Option.isSome_iff_exists, h.page, hshown]
            rfl
          rw [hpage, ← h.activeEditor]
          rfl
        · intro hnone
          rw [hshown] at hnone
          cases hnone
    | preClose => exact ⟨hname, h.page, h.activeEditor, h.content, h.source_of_shownName⟩
    | preDelete => exact ⟨hname, h.page, h.activeEditor, h.content, h.source_of_shownName⟩
    | preRefresh => exact ⟨hname, h.page, h.activeEditor, h.content, h.source_of_shownName⟩
    | preBuild => exact ⟨hname, h.page, h.activeEditor, h.content, h.source_of_shownName⟩
    | postBuild => exact ⟨hname, h.page, h.activeEditor, h.content, h.source_of_shownName⟩

/-! ### Runs of the views -/

section Runs

variable {P E : Type} {V : ViewClass P E}

@[simp] theorem world_foldl (es : List Event) (s : Session P E) :
    (es.foldl V.step s).world = es.foldl World.apply s.world :=
  Run.simulation_foldl (f := Session.world) (I := fun _ => True) (fun _ _ _ => trivial)
    (fun _ _ _ => rfl) es trivial

theorem Session.Proper.foldl {s : Session P E} (hs : s.Proper) (es : List Event) :
    (es.foldl V.step s).Proper :=
  Run.invariant_foldl (fun _ ev hs => hs.step ev) es hs

/-- The simulation along a run. -/
theorem track_foldl {s : Session P E} (hs : s.Proper) (es : List Event) :
    (es.foldl V.step s).track V = es.foldl (Tracking.step V.listensToResources) (s.track V) :=
  Run.simulation_foldl (f := Session.track V) (I := Session.Proper) (fun _ ev hs => hs.step ev)
    (fun _ ev hs => track_step hs ev) es hs

/-- The name a view compares with after a run. -/
theorem shownName_run {w : World} {s : Session P E} (hopen : V.openView w = .ok s)
    (es : List Event) :
    ((es.foldl V.step s).track V).shownName = lastName (Following.opened w).shownName es := by
  obtain ⟨hproper, hstart⟩ := openView_spec hopen
  rw [track_foldl hproper, Tracking.shownName_foldl, hstart.follows.shownName]

end Runs

section Tree

variable (lib : SilverLeaves)

/-- The content string of a tree view is the saved content of the file of the source. -/
theorem tree_content_foldl {w : World} {s : TreeSession}
    (hopen : (DeviceTreeView lib).openView w = .ok s) (es : List Event) :
    (es.foldl (DeviceTreeView lib).step s).content (DeviceTreeView lib) =
      (es.foldl (Following.step true) (.opened w)).source.bind
        (es.foldl World.apply w).contentOf := by
  obtain ⟨hproper, hstart⟩ := openView_spec hopen
  have hfollows : (es.foldl (Tracking.step true) (s.track (DeviceTreeView lib))).Follows
      (es.foldl (Following.step true) (.opened w)) :=
    Run.relation_foldl (fun _ _ ev h => h.step ev) es hstart.follows
  have htrack : (es.foldl (DeviceTreeView lib).step s).track (DeviceTreeView lib)
      = es.foldl (Tracking.step true) (s.track (DeviceTreeView lib)) := track_foldl hproper es
  rw [← htrack] at hfollows
  have hcontent : (es.foldl (DeviceTreeView lib).step s).content (DeviceTreeView lib)
      = (es.foldl (Following.step true) (.opened w)).source.bind
        (es.foldl (DeviceTreeView lib).step s).world.contentOf := hfollows.content
  rw [hcontent, world_foldl, (openView_run hopen).1]

theorem sound_foldl {w : World} {s : TreeSession}
    (hopen : (DeviceTreeView lib).openView w = .ok s) (es : List Event) :
    (es.foldl (DeviceTreeView lib).step s).Sound lib :=
  Run.invariant_foldl (fun _ ev hs => hs.step ev) es (sound_openView hopen)

/-- **The tree on display is that of the saved file of the editor `Following` says**, in
every state of every run in which no call of the platform fails: which file is shown
depends on no text, and its text is never out of date. -/
theorem tree_follows_source {w : World} {s : TreeSession}
    (hopen : (DeviceTreeView lib).openView w = .ok s) (es : List Event) :
    (es.foldl (DeviceTreeView lib).step s).view.viewer.elements =
      elementsOfContent lib ((es.foldl (Following.step true) (.opened w)).source.bind
        (es.foldl World.apply w).contentOf) := by
  rw [(sound_foldl lib hopen es).displays.elements_eq, tree_content_foldl lib hopen]

/-- After a visit to a text file, a save shows the text file as a tree. -/
theorem tree_follows_source_notes :
    ∃ s, (DeviceTreeView attributeLibrary).openView sampleWorld = .ok s ∧
      ([Event.activated (.editor editorNotes),
          .resource (.postChange [(fileNotes, [100, 59])])].foldl
        (DeviceTreeView attributeLibrary).step s).view.viewer.elements
        = elementsOf attributeLibrary [100, 59] :=
  ⟨_, rfl, tree_follows_source attributeLibrary (w := sampleWorld) rfl _⟩

end Tree

/-! ### The memory table -/

/-- The activations of a run all come under the name `name`. -/
def NoSwitch (name : Option String) (es : List Event) : Prop :=
  ∀ ev ∈ es, ∀ n, ev.activatedName = some n → name = some n

/-- The last switch of a run: the activation of the device tree editor `e` under another
name than the one before, after which all activations come under the same name. -/
structure LastSwitch (name : Option String) (es before : List Event) (e : IEditorPart)
    (after : List Event) : Prop where
  split : es = before ++ .activated (.editor e) :: after
  id : e.id = DeviceTreeEditor.ID
  switch : lastName name before ≠ some e.getName
  noSwitch : NoSwitch (some e.getName) after

/-- A run without a switch ends with the name it starts with. -/
theorem NoSwitch.lastName_eq {name : Option String} {es : List Event} (h : NoSwitch name es) :
    lastName name es = name := by
  induction es with
  | nil => rfl
  | cons ev es ih =>
    have hfirst : ev.activatedName.or name = name := by
      cases hn : ev.activatedName with
      | none => exact Option.none_or
      | some n => rw [h ev List.mem_cons_self n hn, Option.some_or]
    change lastName (ev.activatedName.or name) es = name
    rw [hfirst]
    exact ih fun ev' hev' => h ev' (List.mem_cons_of_mem _ hev')

/-- Every run has a last switch or none at all. -/
theorem lastSwitch_or_noSwitch (name : Option String) (es : List Event) :
    (∃ before e after, LastSwitch name es before e after) ∨ NoSwitch name es := by
  induction es using List.reverseRecOn with
  | nil => exact Or.inr (by simp [NoSwitch])
  | append_singleton es ev ih =>
    -- the last event is a switch, or what came before decides
    by_cases hev : ∀ n, ev.activatedName = some n → lastName name es = some n
    · rcases ih with ⟨before, e, after, h⟩ | h
      · refine Or.inl ⟨before, e, after ++ [ev], ⟨by rw [h.split]; simp, h.id, h.switch, ?_⟩⟩
        have hlast : lastName name es = some e.getName := by
          rw [h.split, lastName_append]
          change lastName ((Event.activated (.editor e)).activatedName.or _) after = _
          rw [Event.activatedName_editor h.id, Option.some_or, h.noSwitch.lastName_eq]
        intro ev' hev' n hn
        rcases List.mem_append.mp hev' with hmem | hmem
        · exact h.noSwitch ev' hmem n hn
        · rw [List.mem_singleton.mp hmem] at hn
          rw [← hlast]
          exact hev n hn
      · refine Or.inr fun ev' hev' n hn => ?_
        rcases List.mem_append.mp hev' with hmem | hmem
        · exact h ev' hmem n hn
        · rw [List.mem_singleton.mp hmem] at hn
          rw [← h.lastName_eq]
          exact hev n hn
    · push Not at hev
      obtain ⟨n, hn, hne⟩ := hev
      obtain ⟨e, rfl, hid, rfl⟩ := Event.exists_of_activatedName hn
      exact Or.inl ⟨es, e, [], ⟨rfl, hid, hne, by simp [NoSwitch]⟩⟩

section Memory

variable {lib : SilverLeaves}

/-- Only activations of device tree editors change a view, and a `POST_CHANGE` one that
listens to resources. -/
theorem view_step_of_activatedName_none {P E : Type} {V : ViewClass P E} (s : Session P E)
    {ev : Event} (h : ev.activatedName = none)
    (hpost : V.listensToResources = true → ∀ delta, ev ≠ .resource (.postChange delta)) :
    (V.step s ev).view = s.view := by
  cases ev with
  | editorClosed => rfl
  | edited e text => rfl
  | resource event =>
    change stateAfter ((V.handle _ (.resource event)).run s.view) = s.view
    rw [run_handle_resource_of_not]
    · rfl
    · rintro ⟨hl, delta, rfl⟩
      exact hpost hl delta rfl
  | activated part =>
    change stateAfter ((partActivated V.provider _ part).run s.view) = s.view
    rw [run_partActivated_of_ne]
    · rfl
    · cases part with
      | view v => exact IWorkbenchPart.getId_view_ne v
      | editor e =>
        intro hid
        rw [Event.activatedName_editor hid] at h
        cases h

/-- An activation under the name that is shown blanks the table and keeps everything
else. -/
theorem memory_step_of_same_name {s : MemorySession} (hs : s.Proper) (hq : s.Queried lib)
    {ev : Event} {n : String} (hn : ev.activatedName = some n)
    (hshown : (s.track (MemoryView lib)).shownName = some n) :
    ((MemoryView lib).step s ev).content (MemoryView lib) = s.content (MemoryView lib) ∧
      ((MemoryView lib).step s ev).view.viewer.elements = [] := by
  obtain ⟨e, rfl, hid, rfl⟩ := Event.exists_of_activatedName hn
  have hrefresh : s.RefreshOnly (.activated (.editor e)) :=
    ⟨e, rfl, hid, ((s.track (MemoryView lib)).current_iff e).mpr hshown⟩
  cases outcome (V := MemoryView lib) hs (.activated (.editor e)) with
  | idle hno _ _ => exact absurd hrefresh hno
  | load _ _ _ _ hno _ _ _ => exact absurd hrefresh hno
  | refresh _ hview _ =>
    refine ⟨?_, (elements_refreshOnly hs hq (congrArg ViewState.viewer hview)).1⟩
    rw [Session.content, hview]
    exact Viewer.content_refresh hs.ready

/-- What stays and what goes in a run without a switch: the content string stays, and the
rows stay up to the first activation. -/
theorem memory_of_noSwitch {es : List Event} : ∀ {s : MemorySession}, s.Proper → s.Queried lib →
    NoSwitch (s.track (MemoryView lib)).shownName es →
    (es.foldl (MemoryView lib).step s).content (MemoryView lib) = s.content (MemoryView lib) ∧
      (es.foldl (MemoryView lib).step s).view.viewer.elements =
        if ∀ ev ∈ es, ev.activatedName = none then s.view.viewer.elements else [] := by
  induction es with
  | nil => intro s hs hq h; simp
  | cons ev es ih =>
    intro s hs hq h
    have hname : (((MemoryView lib).step s ev).track (MemoryView lib)).shownName
        = (s.track (MemoryView lib)).shownName := by
      have hfirst : NoSwitch (s.track (MemoryView lib)).shownName [ev] := by
        intro ev' hev'
        rw [List.mem_singleton.mp hev']
        exact h ev List.mem_cons_self
      rw [track_step hs, Tracking.shownName_step]
      exact hfirst.lastName_eq
    obtain ⟨hcontent, hrows⟩ := ih (hs.step ev) (hq.step hs ev)
      (by rw [hname]; exact fun ev' hev' => h ev' (List.mem_cons_of_mem _ hev'))
    rw [List.foldl_cons, hcontent, hrows]
    cases hn : ev.activatedName with
    | none =>
      have hview := view_step_of_activatedName_none (V := MemoryView lib) s hn
        (by intro hl; cases hl)
      rw [Session.content, Session.content, hview]
      refine ⟨rfl, ?_⟩
      simp [hn]
    | some n =>
      obtain ⟨hc, hblank⟩ := memory_step_of_same_name hs hq hn (h ev List.mem_cons_self n hn)
      rw [hblank, hc]
      simp [hn]

/-- **A switch installs the content of the editor**, for either view. -/
theorem viewer_of_switch {P E : Type} {V : ViewClass P E} {s : Session P E} (hs : s.Proper)
    {e : IEditorPart} (hsw : (s.track V).Switches e) :
    (V.step s (.activated (.editor e))).view.viewer =
      ⟨some (V.provider.getElements (V.provider.new (s.world.contentOf e))).2, true,
        (V.provider.getElements (V.provider.new (s.world.contentOf e))).1⟩ := by
  have hcur : ¬ s.view.Current e := fun hcur => hsw.2 (((s.track V).current_iff e).mp hcur)
  have hrun := run_partActivated_world (K := V.provider)
    (s.world.apply (.activated (.editor e))) s.view (e := e) rfl hsw.1 hs.named
  rw [if_neg hcur] at hrun
  change (stateAfter ((partActivated V.provider _ (.editor e)).run s.view)).viewer = _
  rw [hrun]
  exact Viewer.setContentProvider_of_ready hs.ready _

/-- After a switch the table shows the rows of the content that was read. -/
theorem memory_of_switch {s : MemorySession} (hs : s.Proper) {e : IEditorPart}
    (hsw : (s.track (MemoryView lib)).Switches e) :
    ((MemoryView lib).step s (.activated (.editor e))).content (MemoryView lib)
        = s.world.contentOf e ∧
      ((MemoryView lib).step s (.activated (.editor e))).view.viewer.elements
        = rowsOfContent lib (s.world.contentOf e) := by
  have hviewer := viewer_of_switch hs hsw
  rw [Session.content, hviewer]
  exact ⟨Viewer.content_queried_new _ _, getElements_new lib _⟩

/-- A view that was opened shows the rows of the file of the active editor. -/
theorem memory_of_openView {w : World} {s : MemorySession}
    (hopen : (MemoryView lib).openView w = .ok s) :
    s.content (MemoryView lib) = (Following.opened w).source.bind w.contentOf ∧
      s.view.viewer.elements = rowsOfContent lib (s.content (MemoryView lib)) := by
  constructor
  · have hc : s.content (MemoryView lib) = (Following.opened w).source.bind s.world.contentOf :=
      (openView_spec hopen).2.follows.content
    rw [hc, (openView_run hopen).1]
  · obtain ⟨c, hviewer⟩ := openView_viewer hopen
    have hc : s.content (MemoryView lib) = c := by
      rw [Session.content, hviewer]
      exact Viewer.content_queried_new _ _
    rw [hc, hviewer]
    exact getElements_new lib c

theorem proper_queried_foldl {w : World} {s : MemorySession}
    (hopen : (MemoryView lib).openView w = .ok s) (es : List Event) :
    (es.foldl (MemoryView lib).step s).Proper ∧
      (es.foldl (MemoryView lib).step s).Queried lib :=
  Run.invariant_foldl (I := fun s => Session.Proper s ∧ s.Queried lib)
    (fun _ ev hs => ⟨hs.1.step ev, hs.2.step hs.1 ev⟩) es
    ⟨(openView_spec hopen).1, (queried_showsMemoryMap_openView hopen).1⟩

variable (lib) in
/-- **The memory table shows the file of the last switch as it was saved at that moment,
until the first activation after it**, from when on it is blank, in every run in which no
call of the platform fails.  Without a switch, the file that was active when the view was
opened takes its place. -/
theorem memory_of_lastSwitch {w : World} {s : MemorySession}
    (hopen : (MemoryView lib).openView w = .ok s) (es : List Event) :
    (∀ before e after, LastSwitch (Following.opened w).shownName es before e after →
      (es.foldl (MemoryView lib).step s).content (MemoryView lib)
          = (before.foldl World.apply w).contentOf e ∧
        (es.foldl (MemoryView lib).step s).view.viewer.elements =
          if ∀ ev ∈ after, ev.activatedName = none then
            rowsOfContent lib ((before.foldl World.apply w).contentOf e)
          else []) ∧
    (NoSwitch (Following.opened w).shownName es →
      (es.foldl (MemoryView lib).step s).content (MemoryView lib)
          = (Following.opened w).source.bind w.contentOf ∧
        (es.foldl (MemoryView lib).step s).view.viewer.elements =
          if ∀ ev ∈ es, ev.activatedName = none then
            rowsOfContent lib ((Following.opened w).source.bind w.contentOf)
          else []) ∧
    ((∃ before e after, LastSwitch (Following.opened w).shownName es before e after) ∨
      NoSwitch (Following.opened w).shownName es) := by
  obtain ⟨hproper, hstart⟩ := openView_spec hopen
  have hq := (queried_showsMemoryMap_openView hopen).1
  refine ⟨?_, ?_, lastSwitch_or_noSwitch _ _⟩
  · rintro before e after ⟨rfl, hid, hne, hsame⟩
    rw [List.foldl_append, List.foldl_cons]
    have hworld : (before.foldl (MemoryView lib).step s).world = before.foldl World.apply w := by
      rw [world_foldl, (openView_run hopen).1]
    have hbefore := proper_queried_foldl hopen before
    have hsw : ((before.foldl (MemoryView lib).step s).track (MemoryView lib)).Switches e := by
      refine ⟨hid, ?_⟩
      rw [shownName_run hopen]
      exact hne
    obtain ⟨hcontent, hrows⟩ := memory_of_switch hbefore.1 hsw
    rw [hworld] at hcontent hrows
    have hname : (((MemoryView lib).step (before.foldl (MemoryView lib).step s)
        (.activated (.editor e))).track (MemoryView lib)).shownName = some e.getName := by
      rw [track_step hbefore.1, Tracking.shownName_step, Event.activatedName_editor hid,
        Option.some_or]
    obtain ⟨hcontent', hrows'⟩ := memory_of_noSwitch (hbefore.1.step _)
      (hbefore.2.step hbefore.1 _) (by rw [hname]; exact hsame)
    rw [hcontent', hrows', hcontent, hrows]
    exact ⟨rfl, rfl⟩
  · intro hno
    obtain ⟨hcontent, hrows⟩ := memory_of_noSwitch hproper hq
      (by rw [hstart.follows.shownName]; exact hno)
    obtain ⟨hfirst, hel⟩ := memory_of_openView hopen
    rw [hcontent, hrows, hel, hfirst]
    exact ⟨rfl, rfl⟩

/-- The table of a text with a region: right after the switch to `y.dts`, blank after an
activation of the same editor. -/
theorem memory_of_lastSwitch_blank :
    ∃ s, (MemoryView regionLibrary).openView regionWorld = .ok s ∧
      ([Event.activated (.editor editorY)].foldl
        (MemoryView regionLibrary).step s).view.viewer.elements
          = [⟨"0x10", "d"⟩, ⟨"0x1f", "d"⟩] ∧
      ([Event.activated (.editor editorY), .activated (.editor editorY)].foldl
        (MemoryView regionLibrary).step s).view.viewer.elements = [] := by
  have hrows : rowsOfContent regionLibrary (regionWorld.contentOf editorY)
      = [⟨"0x10", "d"⟩, ⟨"0x1f", "d"⟩] := rowsOfContent_of_memoryMap memoryMap_regionText
  have hno : NoSwitch (some editorY.getName) [.activated (.editor editorY)] := by
    intro ev hev n hn
    rw [List.mem_singleton.mp hev] at hn
    exact hn
  refine ⟨_, rfl, ?_, ?_⟩
  · refine (((memory_of_lastSwitch regionLibrary (w := regionWorld) rfl _).1 [] editorY []
      ⟨rfl, rfl, by decide, by simp [NoSwitch]⟩).2).trans ?_
    simpa using hrows
  · refine (((memory_of_lastSwitch regionLibrary (w := regionWorld) rfl _).1 [] editorY
      [.activated (.editor editorY)] ⟨rfl, rfl, by decide, hno⟩).2).trans ?_
    exact if_neg (by decide)

end Memory

/-! ### Recovery -/

section Recovery

/-- An event that leaves both views alone and changes no file. -/
def Event.Quiet (ev : Event) : Prop :=
  ev.activatedName = none ∧ ∀ delta, ev ≠ .resource (.postChange delta)

/-- Files change on `POST_CHANGE` only. -/
theorem World.contentOf_apply (w : World) {ev : Event}
    (h : ∀ delta, ev ≠ .resource (.postChange delta)) (e : IEditorPart) :
    (w.apply ev).contentOf e = w.contentOf e := by
  cases ev with
  | editorClosed => rfl
  | edited _ _ => rfl
  | activated part => cases part <;> rfl
  | resource event =>
    cases event with
    | postChange delta => exact absurd rfl (h delta)
    | preClose => rfl
    | preDelete => rfl
    | preRefresh => rfl
    | preBuild => rfl
    | postBuild => rfl

theorem World.contentOf_foldl {es : List Event} (h : ∀ ev ∈ es, ev.Quiet) (e : IEditorPart) :
    ∀ w : World, (es.foldl World.apply w).contentOf e = w.contentOf e := by
  induction es with
  | nil => intro w; rfl
  | cons ev es ih =>
    intro w
    rw [List.foldl_cons, ih fun ev' hev' => h ev' (List.mem_cons_of_mem _ hev'),
      World.contentOf_apply w (h ev List.mem_cons_self).2]

/-- Quiet events leave a view as it is. -/
theorem view_foldl_of_quiet {P E : Type} {V : ViewClass P E} {es : List Event}
    (h : ∀ ev ∈ es, ev.Quiet) : ∀ s : Session P E, (es.foldl V.step s).view = s.view := by
  induction es with
  | nil => intro s; rfl
  | cons ev es ih =>
    intro s
    have hev := h ev List.mem_cons_self
    rw [List.foldl_cons, ih fun ev' hev' => h ev' (List.mem_cons_of_mem _ hev'),
      view_step_of_activatedName_none s hev.1 fun _ => hev.2]

/-- **After two activations under different names the viewer shows the saved file of the
second editor**, for either view and from every state a run reaches. -/
theorem elements_after_two_activations {P E : Type} {V : ViewClass P E} {w : World}
    {s : Session P E} (hopen : V.openView w = .ok s) (es : List Event) {e₁ e₂ : IEditorPart}
    (hid₁ : e₁.id = DeviceTreeEditor.ID) (hid₂ : e₂.id = DeviceTreeEditor.ID)
    (hne : e₁.getName ≠ e₂.getName) {between after : List Event}
    (hbetween : ∀ ev ∈ between, ev.activatedName = none) (hafter : ∀ ev ∈ after, ev.Quiet) :
    ((es ++ .activated (.editor e₁) :: between ++ .activated (.editor e₂) :: after).foldl V.step
        s).view.viewer.elements =
      (V.provider.getElements (V.provider.new
        (((es ++ .activated (.editor e₁) :: between ++ .activated (.editor e₂) :: after).foldl
          World.apply w).contentOf e₂))).1 := by
  generalize hrun : es ++ .activated (.editor e₁) :: between = run
  rw [List.foldl_append, List.foldl_cons, view_foldl_of_quiet hafter, List.foldl_append,
    List.foldl_cons, World.contentOf_foldl hafter]
  have hname : ((run.foldl V.step s).track V).shownName = some e₁.getName := by
    rw [shownName_run hopen, ← hrun, lastName_append]
    change lastName ((Event.activated (.editor e₁)).activatedName.or _) between = _
    rw [Event.activatedName_editor hid₁, Option.some_or, lastName_of_none hbetween]
  have hsw : ((run.foldl V.step s).track V).Switches e₂ := by
    refine ⟨hid₂, ?_⟩
    rw [hname]
    exact fun h => hne (Option.some.inj h)
  rw [viewer_of_switch ((openView_spec hopen).1.foldl run) hsw, world_foldl,
    (openView_run hopen).1]
  rfl

/-- **Two activations under different names bring both views back**: after any run in which
no call of the platform fails, the tree and the memory table are those of the saved file
of the second editor, and stay so until a device tree editor is activated or a file
changes. -/
theorem views_recover (lib : SilverLeaves) (es : List Event) {e₁ e₂ : IEditorPart}
    (hid₁ : e₁.id = DeviceTreeEditor.ID) (hid₂ : e₂.id = DeviceTreeEditor.ID)
    (hne : e₁.getName ≠ e₂.getName) {between after : List Event}
    (hbetween : ∀ ev ∈ between, ev.activatedName = none) (hafter : ∀ ev ∈ after, ev.Quiet) :
    (∀ w s, (DeviceTreeView lib).openView w = .ok s →
      ((es ++ .activated (.editor e₁) :: between ++ .activated (.editor e₂) :: after).foldl
          (DeviceTreeView lib).step s).view.viewer.elements =
        elementsOfContent lib
          (((es ++ .activated (.editor e₁) :: between ++ .activated (.editor e₂) :: after).foldl
            World.apply w).contentOf e₂)) ∧
    (∀ w s, (MemoryView lib).openView w = .ok s →
      ((es ++ .activated (.editor e₁) :: between ++ .activated (.editor e₂) :: after).foldl
          (MemoryView lib).step s).view.viewer.elements =
        rowsOfContent lib
          (((es ++ .activated (.editor e₁) :: between ++ .activated (.editor e₂) :: after).foldl
            World.apply w).contentOf e₂)) := by
  constructor
  · intro w s hopen
    rw [elements_after_two_activations hopen es hid₁ hid₂ hne hbetween hafter]
    exact getElements_eq_elementsOf (DeviceTreeContentProvider.faithful_new lib _)
  · intro w s hopen
    rw [elements_after_two_activations hopen es hid₁ hid₂ hne hbetween hafter]
    exact getElements_new lib _

/-- A tree view that shows the wrong `x.dts` shows `y.dts` after a visit to it, also while
its buffer is edited. -/
theorem views_recover_sample :
    ∃ s, (DeviceTreeView attributeLibrary).openView sampleWorld = .ok s ∧
      ([Event.activated (.editor editorX'), .activated (.editor editorX),
          .activated (.editor editorNotes), .activated (.editor editorY),
          .edited editorY [100, 59]].foldl
        (DeviceTreeView attributeLibrary).step s).view.viewer.elements
        = elementsOf attributeLibrary [99, 59] := by
  have hid₁ : editorX.id = DeviceTreeEditor.ID := rfl
  have hid₂ : editorY.id = DeviceTreeEditor.ID := rfl
  have hne : editorX.getName ≠ editorY.getName := by decide
  have hbetween : ∀ ev ∈ [Event.activated (.editor editorNotes)], ev.activatedName = none := by
    intro ev hev
    rw [List.mem_singleton.mp hev]
    decide
  have hafter : ∀ ev ∈ [Event.edited editorY [100, 59]], ev.Quiet := by
    intro ev hev
    rw [List.mem_singleton.mp hev]
    exact ⟨rfl, by simp⟩
  exact ⟨_, rfl, (views_recover attributeLibrary [.activated (.editor editorX')] hid₁ hid₂ hne
    hbetween hafter).1 sampleWorld _ rfl⟩

end Recovery

end SilverTree
