import SilverTree.Viewer

/-!
# The event handlers of a view

`DeviceTreeView` and `MemoryView` carry the same code for following the active
editor: `createPartControl`, `partActivated` and `getDeviceTreeEditorContent` differ
only in the provider they install, and only the former listens to the workspace.
The handlers are written here once, over the class of the provider.

A handler can abort with an exception in the middle, and what it assigned before
stays assigned: the handlers live in a monad in which the state survives exceptions.

## Main definitions

* `ViewState` — the fields of a view object, `ViewM` — code of a view.
* `getDeviceTreeEditorContent`, `createPartControl`, `partActivated`,
  `resourceChanged` — the code.
* `ViewClass` — a class of views, `ViewClass.handle` — what it does on an event.

## Main results

* `run_createPartControl_world`, `run_partActivated_world`,
  `run_resourceChanged_world` — what the code does on a platform in which every call
  succeeds.
-/

namespace SilverTree

variable {P E α : Type}

/-- The fields of a view.  `printed` are the exceptions that
`getDeviceTreeEditorContent` caught and printed. -/
structure ViewState (P E : Type) where
  page : Option IWorkbenchPage
  currEditorName : Option String
  viewer : Viewer P E
  printed : List JavaException

/-- The fields of a new view object, with its new viewer. -/
def ViewState.new : ViewState P E := ⟨none, none, Viewer.new, []⟩

/-- Code of a view. -/
abbrev ViewM (P E : Type) := EStateM JavaException (ViewState P E)

/-- The fields after a piece of code, whether it returned or threw. -/
def stateAfter (r : EStateM.Result JavaException (ViewState P E) α) : ViewState P E :=
  match r with
  | .ok _ s => s
  | .error _ s => s

/-- Using a reference: null throws. -/
def deref (r : Option α) : ViewM P E α :=
  match r with
  | some a => pure a
  | none => throw .nullPointer

/-! ### The code -/

/-- The body of the `try` block of `getDeviceTreeEditorContent`. -/
def readActiveEditor (api : Api) (page : Option IWorkbenchPage) :
    Except JavaException (Option Content) :=
  match page with
  | none => .ok none
  | some _ =>
    match api.getActiveEditor .content with
    | none => .error .nullPointer
    | some editor =>
      match h : editor.getFile with
      | none => .ok none
      | some file =>
        match readFile api file with
        | .ok fileContent => .ok (some ⟨fileContent, editor, file, h⟩)
        | .error e => .error e

/-- `getDeviceTreeEditorContent()`: every exception is printed and turned into null. -/
def getDeviceTreeEditorContent (api : Api) : ViewM P E (Option Content) := do
  match readActiveEditor api (← get).page with
  | .ok content => return content
  | .error e =>
    modify fun s => { s with printed := s.printed ++ [e] }
    return none

/-- The assignments to `page` and `currEditorName` and the read that
`createPartControl` and `partActivated` make in this order. -/
def followActiveEditor (api : Api) (pg : IWorkbenchPage) (site : CallSite) :
    ViewM P E (Option Content) := do
  modify fun s => { s with page := some pg }
  let editor ← deref (api.getActiveEditor site)
  modify fun s => { s with currEditorName := some editor.getName }
  getDeviceTreeEditorContent api

variable (K : ProviderClass P E)

/-- `viewer.setContentProvider(new ...(editorContent))`. -/
def installProvider (editorContent : Option Content) : ViewM P E Unit :=
  modify fun s => { s with viewer := s.viewer.setContentProvider K (K.new editorContent) }

/-- `createPartControl`, up to the registration of the listeners. -/
def createPartControl (api : Api) (workbenchPart : Option IWorkbenchPart) : ViewM P E Unit := do
  let editorContent ← match workbenchPart with
    | some part => followActiveEditor api part.getPage .createName
    | none => pure none
  installProvider K editorContent
  modify fun s => { s with viewer := s.viewer.setInput K }

/-- The test of `partActivated` for an editor on the same file: the page is set, and
the names agree. -/
def showsActivatedEditor (api : Api) : ViewM P E Bool := do
  if (← get).page = none then
    return false
  else
    let activated ← deref (api.getActiveEditor .activatedName)
    let currEditorName ← deref (← get).currEditorName
    return currEditorName == activated.getName

/-- `partActivated`. -/
def partActivated (api : Api) (partRef : IWorkbenchPart) : ViewM P E Unit := do
  if partRef.getId = DeviceTreeEditor.ID then
    if ← showsActivatedEditor api then
      modify fun s => { s with viewer := s.viewer.refresh K }
    else
      let editorContent ← followActiveEditor api partRef.getPage .reloadName
      installProvider K editorContent

/-- `resourceChanged`. -/
def resourceChanged (api : Api) (event : IResourceChangeEvent) : ViewM P E Unit :=
  match event with
  | .postChange _ => do
    let editorContent ← getDeviceTreeEditorContent api
    installProvider K editorContent
  | _ => pure ()

/-! ### Classes of views -/

/-- A class of views: the providers it installs, and whether it registers a resource
listener besides its part listener. -/
structure ViewClass (P E : Type) where
  provider : ProviderClass P E
  listensToResources : Bool

/-- The events the resource listener is registered for. -/
def IResourceChangeEvent.inMask : IResourceChangeEvent → Bool
  | .preClose => true
  | .preDelete => true
  | .postChange _ => true
  | .preRefresh => true
  | .preBuild => false
  | .postBuild => false

/-- The handlers of a view that an event reaches. -/
def ViewClass.handle (V : ViewClass P E) (api : Api) : Event → ViewM P E Unit
  | .activated part => partActivated V.provider api part
  | .resource event =>
    if V.listensToResources && event.inMask then resourceChanged V.provider api event else pure ()
  | .editorClosed => pure ()
  | .edited _ _ => pure ()

/-! ### Running the code -/

@[simp] theorem run_deref_some (a : α) (s : ViewState P E) :
    (deref (some a) : ViewM P E α).run s = .ok a s := rfl

@[simp] theorem run_deref_none (s : ViewState P E) :
    (deref none : ViewM P E α).run s = .error .nullPointer s := rfl

@[simp] theorem run_installProvider (c : Option Content) (s : ViewState P E) :
    (installProvider K c).run s
      = .ok () { s with viewer := s.viewer.setContentProvider K (K.new c) } := rfl

@[simp] theorem stateAfter_ok (a : α) (s : ViewState P E) : stateAfter (.ok a s) = s := rfl

@[simp] theorem stateAfter_error (e : JavaException) (s : ViewState P E) :
    stateAfter (.error e s : EStateM.Result JavaException (ViewState P E) α) = s := rfl

/-- An activation of anything but a device tree editor is ignored. -/
theorem run_partActivated_of_ne {api : Api} {p : IWorkbenchPart}
    (h : p.getId ≠ DeviceTreeEditor.ID) (s : ViewState P E) :
    (partActivated K api p).run s = .ok () s := by
  simp [partActivated, h]

/-- Only a listener to resources reacts to a notification, and only to `POST_CHANGE`. -/
theorem run_handle_resource_of_not {V : ViewClass P E} {api : Api} {event : IResourceChangeEvent}
    (h : ¬ (V.listensToResources = true ∧ ∃ delta, event = .postChange delta))
    (s : ViewState P E) : (V.handle api (.resource event)).run s = .ok () s := by
  unfold ViewClass.handle
  dsimp only
  split
  · next hl =>
    rw [Bool.and_eq_true] at hl
    cases event with
    | postChange delta => exact absurd ⟨hl.1, delta, rfl⟩ h
    | preClose => rfl
    | preDelete => rfl
    | preRefresh => rfl
    | preBuild => rfl
    | postBuild => rfl
  · rfl

theorem run_getDeviceTreeEditorContent (api : Api) (s : ViewState P E) :
    (getDeviceTreeEditorContent api).run s =
      match readActiveEditor api s.page with
      | .ok c => .ok c s
      | .error e => .ok none { s with printed := s.printed ++ [e] } := by
  unfold getDeviceTreeEditorContent
  rw [EStateM.run_bind, EStateM.run_get]
  dsimp only
  cases readActiveEditor api s.page <;> rfl

/-- The view shows an editor already: the page is set and the names agree. -/
def ViewState.Current (s : ViewState P E) (e : IEditorPart) : Prop :=
  s.page.isSome = true ∧ s.currEditorName = some e.getName

/-- Once the page is set, so is the name. -/
def ViewState.Named (s : ViewState P E) : Prop :=
  s.page.isSome = true → s.currEditorName.isSome = true

instance (s : ViewState P E) (e : IEditorPart) : Decidable (s.Current e) :=
  inferInstanceAs (Decidable (_ ∧ _))

/-- With an answer of the platform, the test decides `Current`. -/
theorem run_showsActivatedEditor {api : Api} {e : IEditorPart}
    (he : api.getActiveEditor .activatedName = some e) {s : ViewState P E} (hs : s.Named) :
    (showsActivatedEditor api).run s = .ok (decide (s.Current e)) s := by
  obtain ⟨page, name, viewer, printed⟩ := s
  cases page with
  | none => simp [showsActivatedEditor, ViewState.Current]
  | some pg =>
    obtain ⟨n, rfl⟩ := Option.isSome_iff_exists.mp (hs rfl)
    have hcur : decide (ViewState.Current ⟨some pg, some n, viewer, printed⟩ e)
        = (n == e.getName) := by
      simp [ViewState.Current, Bool.beq_eq_decide_eq]
    rw [hcur]
    simp only [showsActivatedEditor, EStateM.run_bind, EStateM.run_get, reduceCtorEq, ↓reduceIte,
      he, run_deref_some, EStateM.run_pure]

/-- Without a page the test is negative, whatever the platform answers. -/
theorem run_showsActivatedEditor_of_page_none (api : Api) {s : ViewState P E}
    (hs : s.page = none) : (showsActivatedEditor api).run s = .ok false s := by
  simp [showsActivatedEditor, hs]

/-- A null answer ends the test. -/
theorem run_showsActivatedEditor_null {api : Api} (he : api.getActiveEditor .activatedName = none)
    {s : ViewState P E} (hs : s.page.isSome = true) :
    (showsActivatedEditor api).run s = .error .nullPointer s := by
  obtain ⟨pg, hpg⟩ := Option.isSome_iff_exists.mp hs
  simp [showsActivatedEditor, hpg, he]

/-- A null answer to the second question comes after the page has been assigned. -/
theorem run_followActiveEditor_null {api : Api} {site : CallSite}
    (he : api.getActiveEditor site = none) (pg : IWorkbenchPage) (s : ViewState P E) :
    (followActiveEditor api pg site).run s = .error .nullPointer { s with page := some pg } := by
  simp [followActiveEditor, he]

/-- With an answer, page and name are assigned and then the content is read. -/
theorem run_followActiveEditor {api : Api} {site : CallSite} {e : IEditorPart}
    (he : api.getActiveEditor site = some e) (pg : IWorkbenchPage) (s : ViewState P E) :
    (followActiveEditor api pg site).run s =
      match readActiveEditor api (some pg) with
      | .ok c => .ok c { s with page := some pg, currEditorName := some e.getName }
      | .error ex => .ok none
          ⟨some pg, some e.getName, s.viewer, s.printed ++ [ex]⟩ := by
  simp only [followActiveEditor, EStateM.run_bind, EStateM.run_modify, he, run_deref_some,
    run_getDeviceTreeEditorContent]

/-- **`partActivated` on a device tree editor** after a positive test. -/
theorem run_partActivated_refresh {api : Api} {e : IEditorPart} (hid : e.id = DeviceTreeEditor.ID)
    {s : ViewState P E} (h : (showsActivatedEditor api).run s = .ok true s) :
    (partActivated K api (.editor e)).run s
      = .ok () { s with viewer := s.viewer.refresh K } := by
  simp [partActivated, hid, h]

/-- **`partActivated` on a device tree editor** after a negative test. -/
theorem run_partActivated_reload {api : Api} {e : IEditorPart} (hid : e.id = DeviceTreeEditor.ID)
    {s : ViewState P E} (h : (showsActivatedEditor api).run s = .ok false s) :
    (partActivated K api (.editor e)).run s
      = (followActiveEditor api .window .reloadName >>= installProvider K).run s := by
  simp [partActivated, hid, h, IWorkbenchPart.getPage]

/-! ### The code on a platform in which every call succeeds -/

section World

variable {K} (w : World) (s : ViewState P E)

theorem readActiveEditor_world (pg : IWorkbenchPage) :
    readActiveEditor w.api (some pg) =
      match w.activeEditor with
      | none => .error .nullPointer
      | some e => .ok (w.contentOf e) := by
  unfold readActiveEditor
  rw [World.api_getActiveEditor]
  cases w.activeEditor with
  | none => rfl
  | some e =>
    dsimp only
    split
    · next h => rw [w.contentOf_of_getFile_none h]
    · next f h => rw [w.contentOf_of_getFile h, readFile_api]

/-- What the view reads is the saved content of the active editor's file, and null when
the page is. -/
theorem run_getDeviceTreeEditorContent_world :
    ∃ printed, (getDeviceTreeEditorContent w.api).run s =
      .ok (s.page.bind fun _ => w.activeContent) { s with printed := printed } := by
  obtain ⟨page, name, viewer, printed⟩ := s
  rw [run_getDeviceTreeEditorContent]
  cases page with
  | none => exact ⟨printed, rfl⟩
  | some pg =>
    rw [readActiveEditor_world, World.activeContent]
    cases w.activeEditor with
    | none => exact ⟨printed ++ [.nullPointer], rfl⟩
    | some e => exact ⟨printed, rfl⟩

/-- With an active editor, `page` and `currEditorName` follow it and its content is
read. -/
theorem run_followActiveEditor_world {e : IEditorPart} (he : w.activeEditor = some e)
    (pg : IWorkbenchPage) (site : CallSite) :
    (followActiveEditor w.api pg site).run s =
      .ok (w.contentOf e) { s with page := some pg, currEditorName := some e.getName } := by
  have hread : readActiveEditor w.api (some pg) = .ok (w.contentOf e) := by
    rw [readActiveEditor_world, he]
  rw [run_followActiveEditor (e := e) (by rw [World.api_getActiveEditor, he]), hread]

/-- **`partActivated` on a device tree editor**: a refresh when the view shows the
editor already, a reload otherwise. -/
theorem run_partActivated_world {e : IEditorPart} (he : w.activeEditor = some e)
    (hid : e.id = DeviceTreeEditor.ID) (hs : s.Named) :
    (partActivated K w.api (.editor e)).run s =
      if s.Current e then .ok () { s with viewer := s.viewer.refresh K }
      else .ok () { s with
        page := some .window
        currEditorName := some e.getName
        viewer := s.viewer.setContentProvider K (K.new (w.contentOf e)) } := by
  have hanswer : w.api.getActiveEditor .activatedName = some e := he
  have htest := run_showsActivatedEditor hanswer hs
  by_cases hcur : s.Current e
  · rw [decide_eq_true hcur] at htest
    rw [if_pos hcur, run_partActivated_refresh K hid htest]
  · rw [decide_eq_false hcur] at htest
    rw [if_neg hcur, run_partActivated_reload K hid htest, EStateM.run_bind,
      run_followActiveEditor_world w s he]
    rfl

/-- **`resourceChanged` on a `POST_CHANGE`** installs whatever the active editor's file
holds. -/
theorem run_resourceChanged_world (delta : List (IFile × Text)) :
    ∃ printed, (resourceChanged K w.api (.postChange delta)).run s =
      .ok () { s with
        viewer := s.viewer.setContentProvider K (K.new (s.page.bind fun _ => w.activeContent))
        printed := printed } := by
  obtain ⟨printed, hread⟩ := run_getDeviceTreeEditorContent_world w s
  refine ⟨printed, ?_⟩
  simp only [resourceChanged, EStateM.run_bind, hread, run_installProvider]

/-- **`createPartControl`** follows the active editor, if there is an active part. -/
theorem run_createPartControl_world {v : ViewState P E}
    (h : (createPartControl K w.api w.activePart).run ViewState.new = .ok () v) :
    ∃ c, v.viewer = (Viewer.new.setContentProvider K (K.new c)).setInput K ∧
      ((w.activePart = none ∧ v.page = none ∧ v.currEditorName = none ∧ c = none) ∨
        ∃ e, w.activePart.isSome = true ∧ w.activeEditor = some e ∧ v.page = some .window ∧
          v.currEditorName = some e.getName ∧ c = w.contentOf e) := by
  unfold createPartControl at h
  cases hpart : w.activePart with
  | none =>
    rw [hpart] at h
    cases h
    exact ⟨none, rfl, Or.inl ⟨rfl, rfl, rfl, rfl⟩⟩
  | some part =>
    rw [hpart] at h
    cases he : w.activeEditor with
    | none =>
      -- without an active editor the name cannot be read, and the view is not created
      simp [followActiveEditor, he] at h
    | some e =>
      have hfollow := run_followActiveEditor_world w (ViewState.new : ViewState P E) he
        part.getPage .createName
      simp only [EStateM.run_bind, hfollow, run_installProvider, EStateM.run_modify] at h
      cases h
      exact ⟨w.contentOf e, rfl, Or.inr ⟨e, rfl, rfl, rfl, rfl, rfl⟩⟩

end World

end SilverTree
