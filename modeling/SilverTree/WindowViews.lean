import SilverTree.Listeners
import SilverTree.ViewHistory

/-!
# The views of a window

In a window several views live side by side, among them those that were closed: their
handlers stay registered and are run with the others.  What a handler of a closed view
does to its own object, whose widgets are disposed, is left open.  Whatever it is, a view
that is open is in the state in which it would be if it were the only one.

## Main definitions

* `classOf lib kind` — the class of the views of a kind.
* `Window`, `Window.step` — a window with the objects of its views.
* `ClosedHandlers` — what the handlers of closed views do to their objects.
* `eventsOf` — the events among the actions.
* `Window.Alone` — a view went from the moment it was created through the events since.

## Main results

* `WorkbenchWindow.Registered.step` — the handlers are those of all views created, in that
  order.
* `WorkbenchWindow.handlers_of_run` — **every open view hears of every event once**, and so
  does every view that was closed.
* `Window.open_view_is_session` — **an open view is where it would be alone**, opened when it
  was created.
-/

namespace SilverTree

/-! ### Objects of views -/

/-- The class of the content providers of a view. -/
def ViewKind.Provider : ViewKind → Type
  | .deviceTree => DeviceTreeContentProvider
  | .memory => DeviceTreeMemoryProvider

/-- What a view shows. -/
def ViewKind.Element : ViewKind → Type
  | .deviceTree => TreeElement
  | .memory => Address

/-- The fields of a view of a kind. -/
abbrev ViewKind.State (kind : ViewKind) : Type := ViewState kind.Provider kind.Element

/-- The class of the views of a kind. -/
def classOf (lib : SilverLeaves) : (kind : ViewKind) → ViewClass kind.Provider kind.Element
  | .deviceTree => DeviceTreeView lib
  | .memory => MemoryView lib

/-- The objects of the views that were created. -/
abbrev Objects := (v : ViewInstance) → Option v.kind.State

/-- A window with the objects of its views, open or not. -/
structure Window where
  window : WorkbenchWindow
  objects : Objects

/-- What the handlers of a closed view do to its object. -/
abbrev ClosedHandlers := (v : ViewInstance) → World → Event → v.kind.State → v.kind.State

namespace Window

variable (lib : SilverLeaves) (closed : ClosedHandlers)

/-- A window without views. -/
def new (w : World) : Window := ⟨WorkbenchWindow.new w, fun _ => none⟩

/-- The platform runs one handler.  An exception that leaves it ends the handler and
nothing else. -/
def notify (opened : List ViewInstance) (w : World) (ev : Event) (objects : Objects)
    (v : ViewInstance) : Objects :=
  Function.update objects v ((objects v).map fun state =>
    if v ∈ opened then stateAfter (((classOf lib v.kind).handle w.api ev).run state)
    else closed v w ev state)

/-- One action.  The handlers run in the order of their registration. -/
def step (s : Window) (a : Action) : Window where
  window := s.window.step lib a
  objects :=
    match a with
    | .showView kind =>
      if s.window.opened.any fun v => v.kind = kind then s.objects
      else
        match (classOf lib kind).openView s.window.world with
        | .ok session =>
          Function.update s.objects ⟨s.window.created.length, kind⟩ (some session.view)
        | .error _ => s.objects
    | .closeView _ => s.objects
    | .event ev =>
      (s.window.invoked (.event ev)).foldl
        (notify lib closed s.window.opened (s.window.world.apply ev) ev) s.objects

end Window

/-! ### The handlers that are registered -/

namespace WorkbenchWindow

/-- The registered handlers are those of all views that were created, in that order, and
the views are numbered in that order. -/
structure Registered (s : WorkbenchWindow) : Prop where
  part : s.partListeners = s.created
  resource : s.resourceListeners = s.created.filter fun v => v.kind = .deviceTree
  numbered : s.created.map ViewInstance.number = List.range s.created.length
  opened : s.opened.Sublist s.created

theorem registered_new (w : World) : (new w).Registered := ⟨rfl, rfl, rfl, .slnil⟩

theorem Registered.nodup {s : WorkbenchWindow} (h : s.Registered) : s.created.Nodup := by
  refine List.Nodup.of_map ViewInstance.number ?_
  rw [h.numbered]
  exact List.nodup_range

theorem Registered.number_lt {s : WorkbenchWindow} (h : s.Registered) {v : ViewInstance}
    (hv : v ∈ s.created) : v.number < s.created.length := by
  have hmem : v.number ∈ s.created.map ViewInstance.number := List.mem_map_of_mem hv
  rw [h.numbered] at hmem
  exact List.mem_range.mp hmem

theorem Registered.createView {s : WorkbenchWindow} (h : s.Registered) (kind : ViewKind) :
    (s.createView ⟨s.created.length, kind⟩).Registered := by
  have hnumbered : (s.created ++ [ViewInstance.mk s.created.length kind]).map ViewInstance.number
      = List.range (s.created ++ [ViewInstance.mk s.created.length kind]).length := by
    rw [List.map_append, h.numbered, List.length_append, List.length_singleton, List.range_succ]
    rfl
  have hopened : (s.opened ++ [ViewInstance.mk s.created.length kind]).Sublist
      (s.created ++ [ViewInstance.mk s.created.length kind]) := h.opened.append_right _
  cases kind with
  | deviceTree =>
    refine ⟨?_, ?_, hnumbered, hopened⟩
    · simp [WorkbenchWindow.createView, createResourceListner, addPartListener, h.part]
    · simp [WorkbenchWindow.createView, createResourceListner, addPartListener, h.resource]
  | memory =>
    refine ⟨?_, ?_, hnumbered, hopened⟩
    · simp [WorkbenchWindow.createView, createResourceListner, addPartListener, h.part]
    · simp [WorkbenchWindow.createView, createResourceListner, addPartListener, h.resource]

variable {lib : SilverLeaves}

/-- Every action keeps the handlers in step with the views that were created. -/
theorem Registered.step {s : WorkbenchWindow} (h : s.Registered) (a : Action) :
    (s.step lib a).Registered := by
  cases a with
  | showView kind =>
    unfold WorkbenchWindow.step
    dsimp only
    split
    · exact h
    · split
      · exact h.createView kind
      · exact h
  | closeView view =>
    exact ⟨h.part, h.resource, h.numbered, List.filter_sublist.trans h.opened⟩
  | event ev => exact ⟨h.part, h.resource, h.numbered, h.opened⟩

/-- At most one view of each kind is open. -/
def OnePerKind (s : WorkbenchWindow) : Prop := (s.opened.map ViewInstance.kind).Nodup

theorem OnePerKind.step {s : WorkbenchWindow} (h : s.OnePerKind) (a : Action) :
    (s.step lib a).OnePerKind := by
  cases a with
  | showView kind =>
    unfold WorkbenchWindow.step
    dsimp only
    split
    · exact h
    · next hany =>
      split
      · have hopened : (s.createView ⟨s.created.length, kind⟩).opened
            = s.opened ++ [⟨s.created.length, kind⟩] := by
          cases kind <;> rfl
        unfold OnePerKind
        rw [hopened, List.map_append]
        refine h.append (List.nodup_singleton kind) ?_
        intro k hk hk'
        obtain ⟨v, hv, rfl⟩ := List.mem_map.mp hk
        refine hany (List.any_eq_true.mpr ⟨v, hv, ?_⟩)
        exact decide_eq_true (List.mem_singleton.mp hk')
      · exact h
  | closeView view => exact List.Nodup.sublist (List.filter_sublist.map _) h
  | event ev => exact h

variable (lib) in
/-- How many of the actions of a run close an open view. -/
def closings : WorkbenchWindow → List Action → ℕ
  | _, [] => 0
  | s, .closeView view :: as =>
    (if view ∈ s.opened then 1 else 0) + closings (s.step lib (.closeView view)) as
  | s, a :: as => closings (s.step lib a) as

variable (lib) in
/-- Closing is the only action after which fewer views are open than were created. -/
theorem length_created_step {s : WorkbenchWindow} (h : s.Registered) (a : Action) :
    (s.step lib a).created.length + s.opened.length =
      (s.step lib a).opened.length + closings lib s [a] + s.created.length := by
  cases a with
  | showView kind =>
    unfold WorkbenchWindow.step closings
    dsimp only
    split
    · simp [closings, Nat.add_comm]
    · split
      · cases kind <;> simp [createView, createResourceListner, addPartListener, closings] <;> omega
      · simp [closings, Nat.add_comm]
  | closeView view =>
    have hnodup : s.opened.Nodup := h.nodup.sublist h.opened
    have hfilter : (s.opened.filter fun v => v ≠ view) = s.opened.erase view := by
      rw [hnodup.erase_eq_filter]
      refine List.filter_congr fun v _ => ?_
      by_cases hv : v = view <;> simp [hv]
    simp only [WorkbenchWindow.step, dispose, closings, hfilter]
    by_cases hmem : view ∈ s.opened
    · have hlen := List.length_erase_of_mem hmem
      have hpos := List.length_pos_of_mem hmem
      simp only [if_pos hmem]
      omega
    · rw [List.erase_of_not_mem hmem, if_neg hmem]
      omega
  | event ev => simp [WorkbenchWindow.step, closings, Nat.add_comm]

theorem closings_cons (s : WorkbenchWindow) (a : Action) (as : List Action) :
    closings lib s (a :: as) = closings lib s [a] + closings lib (s.step lib a) as := by
  cases a <;> simp [closings]

variable (lib) in
theorem length_created_foldl (as : List Action) : ∀ {s : WorkbenchWindow}, s.Registered →
    (as.foldl (step lib) s).created.length + s.opened.length =
      (as.foldl (step lib) s).opened.length + closings lib s as + s.created.length := by
  induction as with
  | nil => intro s _; simp [closings, Nat.add_comm]
  | cons a as ih =>
    intro s h
    have hfirst := length_created_step lib h a
    have hrest := ih (show (s.step lib a).Registered from h.step a)
    rw [List.foldl_cons, closings_cons]
    omega

/-- **Every open view hears of every event once, and every view that was closed still
does.**  An activation reaches one handler for each open view and one more for each time
a view was closed; a change in the mask reaches the tree views. -/
theorem handlers_of_run (lib : SilverLeaves) (w : World) (as : List Action) :
    (∀ part, ∀ v ∈ (as.foldl (step lib) (new w)).opened,
      ((as.foldl (step lib) (new w)).invoked (.event (.activated part))).count v = 1) ∧
    (∀ part, ((as.foldl (step lib) (new w)).invoked (.event (.activated part))).length =
      (as.foldl (step lib) (new w)).opened.length + closings lib (new w) as) ∧
    (∀ event : IResourceChangeEvent, event.inMask = true →
      ∀ v ∈ (as.foldl (step lib) (new w)).opened,
        ((as.foldl (step lib) (new w)).invoked (.event (.resource event))).count v =
          if v.kind = .deviceTree then 1 else 0) ∧
    ((as.foldl (step lib) (new w)).opened.map ViewInstance.kind).Nodup := by
  have hreg : (as.foldl (step lib) (new w)).Registered :=
    Run.invariant_foldl (fun _ a h => h.step a) as (registered_new w)
  have hlen := length_created_foldl lib as (registered_new w)
  refine ⟨?_, ?_, ?_, ?_⟩
  · intro part v hv
    rw [invoked, hreg.part]
    exact List.count_eq_one_of_mem hreg.nodup (hreg.opened.subset hv)
  · intro part
    rw [invoked, hreg.part]
    exact hlen
  · intro event hmask v hv
    rw [invoked, if_pos hmask, hreg.resource]
    split
    · next hkind =>
      refine List.count_eq_one_of_mem (hreg.nodup.filter _) (List.mem_filter.mpr ⟨?_, ?_⟩)
      · exact hreg.opened.subset hv
      · exact decide_eq_true hkind
    · next hkind =>
      refine List.count_eq_zero.mpr fun hmem => hkind ?_
      exact of_decide_eq_true (List.mem_filter.mp hmem).2
  · exact Run.invariant_foldl (I := OnePerKind) (fun _ a h => h.step a) as List.nodup_nil

end WorkbenchWindow

/-! ### A view among others -/

/-- The events among the actions in a window. -/
def eventsOf (as : List Action) : List Event :=
  as.filterMap fun a => match a with
    | .event ev => some ev
    | _ => none

@[simp] theorem eventsOf_append (as as' : List Action) :
    eventsOf (as ++ as') = eventsOf as ++ eventsOf as' := List.filterMap_append

@[simp] theorem eventsOf_event (ev : Event) : eventsOf [.event ev] = [ev] := rfl

namespace Window

open WorkbenchWindow

variable {lib : SilverLeaves} {closed : ClosedHandlers}

variable (lib closed) in
/-- The lists of views change as in `WorkbenchWindow`. -/
theorem window_foldl (as : List Action) (s : Window) :
    (as.foldl (step lib closed) s).window = as.foldl (WorkbenchWindow.step lib) s.window :=
  Run.simulation_foldl (f := Window.window) (I := fun _ => True) (fun _ _ _ => trivial)
    (fun _ _ _ => rfl) as trivial

variable (lib closed) in
theorem registered_foldl (w : World) (as : List Action) :
    (as.foldl (step lib closed) (new w)).window.Registered := by
  rw [window_foldl]
  exact Run.invariant_foldl (fun _ a h => h.step a) as (registered_new w)

theorem world_step (s : WorkbenchWindow) (a : Action) :
    (s.step lib a).world = (eventsOf [a]).foldl World.apply s.world := by
  cases a with
  | closeView view => rfl
  | event ev => rfl
  | showView kind =>
    unfold WorkbenchWindow.step
    dsimp only
    split
    · rfl
    · split
      · cases kind <;> rfl
      · rfl

/-- The world after a run is that after its events. -/
theorem world_window_foldl (as : List Action) : ∀ s : WorkbenchWindow,
    (as.foldl (WorkbenchWindow.step lib) s).world = (eventsOf as).foldl World.apply s.world := by
  induction as with
  | nil => intro s; rfl
  | cons a as ih =>
    intro s
    have hsplit : eventsOf (a :: as) = eventsOf [a] ++ eventsOf as := eventsOf_append [a] as
    rw [List.foldl_cons, ih, world_step, hsplit, List.foldl_append]

/-- What running handlers does to one object: its own handler is run, if it is among
them. -/
theorem foldl_notify {opened : List ViewInstance} {w : World} {ev : Event} (v : ViewInstance)
    {l : List ViewInstance} (hl : l.Nodup) : ∀ objects : Objects,
    l.foldl (notify lib closed opened w ev) objects v =
      if v ∈ l then (objects v).map fun state =>
        if v ∈ opened then stateAfter (((classOf lib v.kind).handle w.api ev).run state)
        else closed v w ev state
      else objects v := by
  induction l with
  | nil => intro objects; simp
  | cons u l ih =>
    intro objects
    obtain ⟨hu, hl⟩ := List.nodup_cons.mp hl
    rw [List.foldl_cons, ih hl]
    by_cases huv : v = u
    · subst huv
      rw [if_neg hu, if_pos List.mem_cons_self, notify, Function.update_self]
    · have hother : notify lib closed opened w ev objects u v = objects v :=
        Function.update_of_ne huv _ _
      have hmem : v ∈ u :: l ↔ v ∈ l := by simp [huv]
      rw [hother]
      simp only [hmem]

/-- A view whose handlers an event does not reach would not react to it either. -/
theorem handle_of_not_invoked {s : WorkbenchWindow} (h : s.Registered) {v : ViewInstance}
    (hv : v ∈ s.created) {ev : Event} (hno : v ∉ s.invoked (.event ev)) (w : World)
    (state : v.kind.State) :
    stateAfter (((classOf lib v.kind).handle w.api ev).run state) = state := by
  cases ev with
  | editorClosed => rfl
  | edited e text => rfl
  | activated part =>
    rw [invoked, h.part] at hno
    exact absurd hv hno
  | resource event =>
    rw [run_handle_resource_of_not]
    · rfl
    · rintro ⟨hlistens, delta, rfl⟩
      refine hno ?_
      rw [invoked, if_pos (show (IResourceChangeEvent.postChange delta).inMask = true from rfl),
        h.resource]
      refine List.mem_filter.mpr ⟨hv, decide_eq_true ?_⟩
      obtain ⟨number, kind⟩ := v
      cases kind with
      | deviceTree => rfl
      | memory => cases hlistens

/-- **An event moves an open view as if it were alone.** -/
theorem objects_event {s : Window} (h : s.window.Registered) {v : ViewInstance}
    (hv : v ∈ s.window.opened) {session : Session v.kind.Provider v.kind.Element}
    (hworld : session.world = s.window.world) (hobj : s.objects v = some session.view)
    (ev : Event) :
    (s.step lib closed (.event ev)).objects v
      = some ((classOf lib v.kind).step session ev).view := by
  have hcreated := h.opened.subset hv
  have hnodup : (s.window.invoked (.event ev)).Nodup := by
    cases ev with
    | activated part => rw [invoked, h.part]; exact h.nodup
    | editorClosed => exact List.nodup_nil
    | edited e text => exact List.nodup_nil
    | resource event =>
      rw [invoked]
      split
      · rw [h.resource]; exact h.nodup.filter _
      · exact List.nodup_nil
  change (s.window.invoked (.event ev)).foldl
    (notify lib closed s.window.opened (s.window.world.apply ev) ev) s.objects v = _
  rw [foldl_notify v hnodup, hobj, ViewClass.step, hworld]
  by_cases hinv : v ∈ s.window.invoked (.event ev)
  · rw [if_pos hinv, Option.map_some, if_pos hv]
  · rw [if_neg hinv, handle_of_not_invoked h hcreated hinv]

variable (lib closed) in
/-- **What asking for a view does**: nothing, or a new view is opened. -/
theorem showView_cases (s : Window) (kind : ViewKind) :
    (s.step lib closed (.showView kind)).window.opened = s.window.opened ∧
        (s.step lib closed (.showView kind)).objects = s.objects ∨
      ∃ session, (classOf lib kind).openView s.window.world = .ok session ∧
        (s.step lib closed (.showView kind)).window.opened
          = s.window.opened ++ [⟨s.window.created.length, kind⟩] ∧
        (s.step lib closed (.showView kind)).objects
          = Function.update s.objects ⟨s.window.created.length, kind⟩ (some session.view) := by
  have hopens : opens lib s.window.world kind
      = ((classOf lib kind).openView s.window.world).isOk := by
    cases kind <;> rfl
  by_cases hany : (s.window.opened.any fun v => v.kind = kind) = true
  · refine Or.inl ⟨?_, ?_⟩
    · simp only [step, WorkbenchWindow.step, if_pos hany]
    · simp only [step, if_pos hany]
  · cases hrun : (classOf lib kind).openView s.window.world with
    | error e =>
      rw [hrun] at hopens
      refine Or.inl ⟨?_, ?_⟩
      · simp only [step, WorkbenchWindow.step, if_neg hany, hopens, Except.isOk, Except.toBool,
          Bool.false_eq_true, ↓reduceIte]
      · simp only [step, if_neg hany, hrun]
    | ok session =>
      rw [hrun] at hopens
      refine Or.inr ⟨session, rfl, ?_, ?_⟩
      · simp only [step, WorkbenchWindow.step, if_neg hany, hopens, Except.isOk, Except.toBool,
          ↓reduceIte]
        cases kind <;> rfl
      · simp only [step, if_neg hany, hrun]

variable (lib closed) in
/-- The view is where it would be alone: it was opened in the world of the moment it was
created, and went through the events since then and only through these. -/
def Alone (w : World) (as : List Action) (v : ViewInstance) : Prop :=
  ∃ before after session, as = before ++ .showView v.kind :: after ∧
    v.number = (before.foldl (step lib closed) (new w)).window.created.length ∧
    v ∈ ((before.foldl (step lib closed) (new w)).step lib closed
      (.showView v.kind)).window.created ∧
    (classOf lib v.kind).openView ((eventsOf before).foldl World.apply w) = .ok session ∧
    (as.foldl (step lib closed) (new w)).objects v
      = some ((eventsOf after).foldl (classOf lib v.kind).step session).view

section Alone

variable {w : World} {as : List Action} {v : ViewInstance}

theorem world_foldl_new : (as.foldl (step lib closed) (new w)).window.world
    = (eventsOf as).foldl World.apply w := by
  rw [window_foldl, world_window_foldl]
  rfl

/-- An action that is no event and leaves the object as it is. -/
theorem Alone.of_objects (h : Alone lib closed w as v) {a : Action}
    (hsame : ((as.foldl (step lib closed) (new w)).step lib closed a).objects v
      = (as.foldl (step lib closed) (new w)).objects v)
    (hevents : eventsOf [a] = []) : Alone lib closed w (as ++ [a]) v := by
  obtain ⟨before, after, session, hsplit, hnumber, hcreated, hrun, hobj⟩ := h
  refine ⟨before, after ++ [a], session, by rw [hsplit]; simp, hnumber, hcreated, hrun, ?_⟩
  rw [List.foldl_append, List.foldl_cons, List.foldl_nil, hsame, hobj, eventsOf_append, hevents,
    List.append_nil]

/-- An event, while the view is open. -/
theorem Alone.event (h : Alone lib closed w as v)
    (hv : v ∈ (as.foldl (step lib closed) (new w)).window.opened) (ev : Event) :
    Alone lib closed w (as ++ [.event ev]) v := by
  obtain ⟨before, after, session, hsplit, hnumber, hcreated, hrun, hobj⟩ := h
  refine ⟨before, after ++ [.event ev], session, by rw [hsplit]; simp, hnumber, hcreated, hrun, ?_⟩
  have hsession : ((eventsOf after).foldl (classOf lib v.kind).step session).world
      = (as.foldl (step lib closed) (new w)).window.world := by
    rw [world_foldl, (openView_run hrun).1, world_foldl_new, hsplit, eventsOf_append,
      List.foldl_append]
    rfl
  rw [List.foldl_append, List.foldl_cons, List.foldl_nil,
    objects_event (registered_foldl lib closed w as) hv hsession hobj, eventsOf_append,
    eventsOf_event, List.foldl_append]
  rfl

/-- Asking for a view keeps the views that are open, and a new one starts alone. -/
theorem Alone.showView {kind : ViewKind}
    (h : ∀ v ∈ (as.foldl (step lib closed) (new w)).window.opened, Alone lib closed w as v)
    (hv : v ∈ ((as.foldl (step lib closed) (new w)).step lib closed
      (.showView kind)).window.opened) :
    Alone lib closed w (as ++ [.showView kind]) v := by
  have hreg := registered_foldl lib closed w as
  rcases showView_cases lib closed (as.foldl (step lib closed) (new w)) kind with
    ⟨hopened, hobjects⟩ | ⟨session, hrun, hopened, hobjects⟩
  · rw [hopened] at hv
    exact (h v hv).of_objects (by rw [hobjects]) rfl
  · have hcreated : v ∈ ((as.foldl (step lib closed) (new w)).step lib closed
        (.showView kind)).window.created := (hreg.step (.showView kind)).opened.subset hv
    rw [hopened, List.mem_append] at hv
    rcases hv with hv | hv
    · refine (h v hv).of_objects ?_ rfl
      rw [hobjects, Function.update_of_ne]
      rintro rfl
      exact absurd (hreg.number_lt (hreg.opened.subset hv)) (by simp)
    · obtain rfl := List.mem_singleton.mp hv
      rw [world_foldl_new] at hrun
      refine ⟨as, [], session, rfl, rfl, hcreated, hrun, ?_⟩
      rw [List.foldl_append, List.foldl_cons, List.foldl_nil, hobjects, Function.update_self]
      rfl

end Alone

/-- **An open view is where it would be alone**, whatever other views were opened and
closed around it and whatever the handlers of closed views do: it was opened in the world
of the moment it was created, went through the events since then and only through these. -/
theorem open_view_is_session (lib : SilverLeaves) (closed : ClosedHandlers) (w : World)
    (as : List Action) : ∀ v ∈ (as.foldl (step lib closed) (new w)).window.opened,
    Alone lib closed w as v := by
  induction as using List.reverseRecOn with
  | nil => intro v hv; cases hv
  | append_singleton as a ih =>
    intro v hv
    rw [List.foldl_append, List.foldl_cons, List.foldl_nil] at hv
    cases a with
    | closeView view => exact (ih v (List.mem_filter.mp hv).1).of_objects rfl rfl
    | event ev => exact (ih v hv).event hv ev
    | showView kind => exact Alone.showView ih hv

/-- Handlers that do nothing to a disposed view. -/
def ignoring : ClosedHandlers := fun _ _ _ state => state

/-- A tree view that is opened after another one was closed. -/
theorem open_view_is_session_reopened :
    ∃ before after session,
      [Action.showView .deviceTree, .closeView ⟨0, .deviceTree⟩, .showView .deviceTree,
        .event (.activated (.editor editorY))] = before ++ .showView .deviceTree :: after ∧
      1 = (before.foldl (step attributeLibrary ignoring) (new sampleWorld)).window.created.length ∧
      ⟨1, .deviceTree⟩ ∈ ((before.foldl (step attributeLibrary ignoring) (new sampleWorld)).step
        attributeLibrary ignoring (.showView .deviceTree)).window.created ∧
      (DeviceTreeView attributeLibrary).openView ((eventsOf before).foldl World.apply sampleWorld)
        = .ok session ∧
      ([Action.showView .deviceTree, .closeView ⟨0, .deviceTree⟩, .showView .deviceTree,
        .event (.activated (.editor editorY))].foldl (step attributeLibrary ignoring)
          (new sampleWorld)).objects ⟨1, .deviceTree⟩
        = some ((eventsOf after).foldl (DeviceTreeView attributeLibrary).step session).view :=
  open_view_is_session attributeLibrary ignoring sampleWorld _ ⟨1, .deviceTree⟩
    (List.mem_singleton.mpr rfl)

end Window

end SilverTree
