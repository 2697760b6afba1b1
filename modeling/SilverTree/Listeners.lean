import SilverTree.Provenance

/-!
# The listeners of the views

The last thing `createPartControl` does is to register the handlers of the new view:
`DeviceTreeView` adds a resource listener to the workspace and a part listener to the
part service, `MemoryView` a part listener only.  Closing a view calls `dispose`, which
neither view overrides, so that nothing is ever removed: the registered handlers are
those of all views that were ever created.

## Main definitions

* `WorkbenchWindow`, `WorkbenchWindow.step` — a window in which views are opened and
  closed between events.
* `WorkbenchWindow.invoked` — the views whose handlers an event reaches.
* `WorkbenchWindow.RegisteredExactly` — the handlers of the open views are registered,
  and no others.

## Main results

* `WorkbenchWindow.Inv.step` — **nothing is ever removed.**
* `listeners_of_open_views_iff` — **when the registered handlers, and when the invoked
  ones, belong to open views.**
-/

namespace SilverTree

/-- The views of the plug-in. -/
inductive ViewKind
  | deviceTree
  | memory
  deriving DecidableEq, Repr

/-- A view object: the number of views created before it, and its class. -/
structure ViewInstance where
  number : ℕ
  kind : ViewKind
  deriving DecidableEq, Repr

/-- A workbench window with its views and the two services they register with.
`created` are all views that were ever created, a history variable. -/
structure WorkbenchWindow where
  world : World
  created : List ViewInstance
  opened : List ViewInstance
  partListeners : List ViewInstance
  resourceListeners : List ViewInstance

/-- What happens in a window. -/
inductive Action
  /-- The user asks for a view. -/
  | showView (kind : ViewKind)
  /-- The user closes a view. -/
  | closeView (view : ViewInstance)
  /-- Something else happens. -/
  | event (ev : Event)
  deriving DecidableEq

namespace WorkbenchWindow

/-- A window without views. -/
def new (w : World) : WorkbenchWindow := ⟨w, [], [], [], []⟩

section Code

variable (lib : SilverLeaves)

/-- Whether `createPartControl` gets as far as the registration of the listeners. -/
def opens (w : World) : ViewKind → Bool
  | .deviceTree => ((DeviceTreeView lib).openView w).isOk
  | .memory => ((MemoryView lib).openView w).isOk

/-- `createResourceListner`, which only `DeviceTreeView` has. -/
def createResourceListner (s : WorkbenchWindow) (view : ViewInstance) : WorkbenchWindow :=
  match view.kind with
  | .deviceTree => { s with resourceListeners := s.resourceListeners ++ [view] }
  | .memory => s

/-- `addPartListener`. -/
def addPartListener (s : WorkbenchWindow) (view : ViewInstance) : WorkbenchWindow :=
  { s with partListeners := s.partListeners ++ [view] }

/-- A new view, at the end of its `createPartControl`. -/
def createView (s : WorkbenchWindow) (view : ViewInstance) : WorkbenchWindow :=
  addPartListener (createResourceListner
    { s with created := s.created ++ [view], opened := s.opened ++ [view] } view) view

/-- `ViewPart.dispose`, as both views inherit it: it has nothing to do with the
services. -/
def dispose (s : WorkbenchWindow) (_view : ViewInstance) : WorkbenchWindow := s

/-- One action.  A view that is open is not opened a second time. -/
def step (s : WorkbenchWindow) : Action → WorkbenchWindow
  | .showView kind =>
    if s.opened.any fun v => v.kind = kind then s
    else if opens lib s.world kind then s.createView ⟨s.created.length, kind⟩
    else s
  | .closeView view => dispose { s with opened := s.opened.filter fun v => v ≠ view } view
  | .event ev => { s with world := s.world.apply ev }

end Code

/-- The views whose handlers the platform invokes: a part listener hears of every
activation, a resource listener of the changes in its mask. -/
def invoked (s : WorkbenchWindow) : Action → List ViewInstance
  | .event (.activated _) => s.partListeners
  | .event (.resource event) => if event.inMask then s.resourceListeners else []
  | _ => []

/-- The handlers of the open views are registered, and no others. -/
structure RegisteredExactly (s : WorkbenchWindow) : Prop where
  part : ∀ v, v ∈ s.partListeners ↔ v ∈ s.opened
  resource : ∀ v, v ∈ s.resourceListeners ↔ v ∈ s.opened ∧ v.kind = .deviceTree

/-! ### Nothing is removed -/

/-- The invariant: all views that were created are registered, open or not. -/
structure Inv (s : WorkbenchWindow) : Prop where
  part : ∀ v, v ∈ s.partListeners ↔ v ∈ s.created
  resource : ∀ v, v ∈ s.resourceListeners ↔ v ∈ s.created ∧ v.kind = .deviceTree
  opened : ∀ v ∈ s.opened, v ∈ s.created

theorem inv_new (w : World) : (new w).Inv := by
  constructor <;> simp [new]

/-- What `createView` does to the lists. -/
theorem mem_createView (s : WorkbenchWindow) (view v : ViewInstance) :
    (v ∈ (s.createView view).created ↔ v ∈ s.created ∨ v = view) ∧
      (v ∈ (s.createView view).opened ↔ v ∈ s.opened ∨ v = view) ∧
      (v ∈ (s.createView view).partListeners ↔ v ∈ s.partListeners ∨ v = view) ∧
      (v ∈ (s.createView view).resourceListeners ↔
        v ∈ s.resourceListeners ∨ v = view ∧ v.kind = .deviceTree) := by
  obtain ⟨number, kind⟩ := view
  cases kind with
  | deviceTree =>
    refine ⟨?_, ?_, ?_, ?_⟩
    · simp [createView, createResourceListner, addPartListener]
    · simp [createView, createResourceListner, addPartListener]
    · simp [createView, createResourceListner, addPartListener]
    · simp only [createView, createResourceListner, addPartListener, List.mem_append,
        List.mem_singleton]
      refine or_congr_right ⟨?_, And.left⟩
      rintro rfl
      exact ⟨rfl, rfl⟩
  | memory =>
    refine ⟨?_, ?_, ?_, ?_⟩
    · simp [createView, createResourceListner, addPartListener]
    · simp [createView, createResourceListner, addPartListener]
    · simp [createView, createResourceListner, addPartListener]
    · simp only [createView, createResourceListner, addPartListener]
      refine (or_iff_left ?_).symm
      rintro ⟨rfl, hkind⟩
      cases hkind

theorem Inv.createView {s : WorkbenchWindow} (h : s.Inv) (view : ViewInstance) :
    (s.createView view).Inv := by
  constructor
  · intro v
    obtain ⟨hcreated, -, hpart, -⟩ := mem_createView s view v
    rw [hcreated, hpart, h.part]
  · intro v
    obtain ⟨hcreated, -, -, hresource⟩ := mem_createView s view v
    rw [hcreated, hresource, h.resource, or_and_right]
  · intro v hv
    obtain ⟨hcreated, hopened, -, -⟩ := mem_createView s view v
    rw [hopened] at hv
    exact hcreated.mpr (hv.imp (h.opened v) id)

variable {lib : SilverLeaves}

/-- **Nothing is ever removed**: every action keeps all created views registered. -/
theorem Inv.step {s : WorkbenchWindow} (h : s.Inv) (a : Action) : (s.step lib a).Inv := by
  cases a with
  | showView kind =>
    unfold WorkbenchWindow.step
    dsimp only
    split
    · exact h
    · split
      · exact h.createView _
      · exact h
  | closeView view =>
    refine ⟨h.part, h.resource, fun v hv => h.opened v ?_⟩
    exact (List.mem_filter.mp hv).1
  | event ev => exact ⟨h.part, h.resource, h.opened⟩

/-! ### Registered and invoked handlers -/

theorem RegisteredExactly.createView {s : WorkbenchWindow} (h : s.RegisteredExactly)
    (view : ViewInstance) : (s.createView view).RegisteredExactly := by
  constructor
  · intro v
    obtain ⟨-, hopened, hpart, -⟩ := mem_createView s view v
    rw [hopened, hpart, h.part]
  · intro v
    obtain ⟨-, hopened, -, hresource⟩ := mem_createView s view v
    rw [hopened, hresource, h.resource, or_and_right]

/-- **One action** keeps the registered handlers those of the open views exactly when it
does not close an open view. -/
theorem registeredExactly_step_iff {s : WorkbenchWindow} (h : s.RegisteredExactly) (a : Action) :
    (s.step lib a).RegisteredExactly ↔ ∀ v, a = .closeView v → v ∉ s.opened := by
  cases a with
  | showView kind =>
    refine iff_of_true ?_ (by simp)
    unfold step
    dsimp only
    split
    · exact h
    · split
      · exact h.createView _
      · exact h
  | event ev => exact iff_of_true ⟨h.part, h.resource⟩ (by simp)
  | closeView view =>
    constructor
    · intro hstep v hv hopen
      cases hv
      -- the part listener of the closed view is still there
      have hmem : view ∈ s.opened.filter fun v => v ≠ view :=
        (hstep.part view).mp ((h.part view).mpr hopen)
      exact absurd rfl (of_decide_eq_true (List.mem_filter.mp hmem).2)
    · intro hclosed
      have hsame : (s.opened.filter fun v => v ≠ view) = s.opened := by
        rw [List.filter_eq_self]
        intro v hv
        refine decide_eq_true ?_
        rintro rfl
        exact hclosed v rfl hv
      have hstep : s.step lib (.closeView view) = s := by
        simp only [step, dispose, hsame]
      rw [hstep]
      exact h

/-- The handlers an action invokes belong to open views exactly when an activation finds
all views that were created still open, and a change in the mask all the tree views. -/
theorem Inv.invoked_iff {s : WorkbenchWindow} (h : s.Inv) (a : Action) :
    (∀ v ∈ s.invoked a, v ∈ s.opened) ↔
      (∀ part, a = .event (.activated part) → ∀ v ∈ s.created, v ∈ s.opened) ∧
        ∀ event, a = .event (.resource event) → event.inMask = true →
          ∀ v ∈ s.created, v.kind = .deviceTree → v ∈ s.opened := by
  cases a with
  | showView kind => simp [invoked]
  | closeView view => simp [invoked]
  | event ev =>
    cases ev with
    | activated part => simp [invoked, h.part]
    | editorClosed => simp [invoked]
    | edited e text => simp [invoked]
    | resource event =>
      cases hmask : event.inMask with
      | false => simp [invoked, hmask]
      | true => simp [invoked, hmask, h.resource]

end WorkbenchWindow

open WorkbenchWindow

/-- **The registered handlers are those of the open views, in every state of a run,
exactly when** no open view is ever closed; **and the invoked handlers belong to open
views exactly when** no activation comes after a view was closed, and no change in the
mask after a tree view was. -/
theorem listeners_of_open_views_iff (lib : SilverLeaves) (w : World) (as : List Action) :
    (Run.Always (step lib) RegisteredExactly (new w) as ↔
      Run.EachStep (step lib) (fun s a => ∀ v, a = .closeView v → v ∉ s.opened) (new w) as) ∧
    (Run.EachStep (step lib) (fun s a => ∀ v ∈ s.invoked a, v ∈ s.opened) (new w) as ↔
      Run.EachStep (step lib)
        (fun s a =>
          (∀ part, a = .event (.activated part) → ∀ v ∈ s.created, v ∈ s.opened) ∧
            ∀ event, a = .event (.resource event) → event.inMask = true →
              ∀ v ∈ s.created, v.kind = .deviceTree → v ∈ s.opened) (new w) as) := by
  constructor
  · have hnew : (new w).RegisteredExactly := by constructor <;> simp [new]
    have hiff : Run.Always (step lib) RegisteredExactly (new w) as ↔
        (new w).RegisteredExactly ∧
          Run.EachStep (step lib) (fun s a => ∀ v, a = .closeView v → v ∉ s.opened) (new w) as := by
      refine Run.always_iff_eachStep (I := fun _ => True) (fun _ _ _ => trivial) ?_ trivial
      intro s a _ h
      exact registeredExactly_step_iff h a
    exact hiff.trans (and_iff_right hnew)
  · exact Run.eachStep_congr (I := Inv) (fun s a h _ => h.step a) (fun s a h => h.invoked_iff a)
      (inv_new w)

/-- Opening a tree view, closing it and activating an editor invokes the handler of the
closed view. -/
theorem listeners_of_open_views_fails :
    ¬ ∀ (lib : SilverLeaves) (w : World) (as : List Action),
      Run.Always (step lib) RegisteredExactly (new w) as ∧
        Run.EachStep (step lib) (fun s a => ∀ v ∈ s.invoked a, v ∈ s.opened) (new w) as := by
  intro h
  have hrun := (h attributeLibrary sampleWorld [.showView .deviceTree,
    .closeView ⟨0, .deviceTree⟩, .event (.activated (.editor editorX))]).2
  have hmem := hrun.2.2.1 ⟨0, .deviceTree⟩ (List.mem_singleton.mpr rfl)
  exact absurd hmem List.not_mem_nil

end SilverTree
