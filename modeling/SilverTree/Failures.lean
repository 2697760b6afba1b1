import SilverTree.Provenance

/-!
# Activations that fail

`partActivated` assigns `page` and `currEditorName` one after the other and asks the
platform in between; every answer may be null, and reading the file may fail.  Some
failures end the handler with an exception, others are caught in
`getDeviceTreeEditorContent` and leave a null content.  The next activation trusts
the two fields, so a failed activation should not have changed them.

This module takes the platform as it comes: the answers to the calls are part of
each event, and only their kind is fixed.

## Main definitions

* `Delivery` — an event together with what the platform answers while it is handled.
* `ViewClass.deliver` — how it changes a view, `ViewClass.Failed` — whether it failed.
* `ViewState.TakesReload` — the next activation of an editor takes the reload path.
* `Handling` — **what the activation of a device tree editor can do.**

## Main results

* `Handling.restores_iff` — when a failed activation has changed nothing.
* `failed_activation_restores_iff` — **the same along every run of either view.**
-/

namespace SilverTree

variable {P E : Type}

/-! ### Deliveries -/

/-- An event and the answers of the platform while it is handled.  The active editor is
the one that was activated, or null. -/
structure Delivery where
  event : Event
  api : Api
  answers : ∀ e, event = .activated (.editor e) → ∀ site,
    api.getActiveEditor site = none ∨ api.getActiveEditor site = some e

/-- The fields of a view after a delivery. -/
def ViewClass.deliver (V : ViewClass P E) (s : ViewState P E) (d : Delivery) : ViewState P E :=
  stateAfter ((V.handle d.api d.event).run s)

/-- Handling fails: it ends with an exception, or an exception is caught and printed on
the way. -/
def ViewClass.Failed (V : ViewClass P E) (s : ViewState P E) (d : Delivery) : Prop :=
  (∃ ex s', (V.handle d.api d.event).run s = .error ex s') ∨ (V.deliver s d).printed ≠ s.printed

/-- The next activation of an editor takes the reload path: the test for the refresh-only
path neither succeeds nor throws. -/
def ViewState.TakesReload (s : ViewState P E) (e : IEditorPart) : Prop :=
  ∀ api : Api, api.getActiveEditor .activatedName = some e →
    (showsActivatedEditor api).run s = .ok false s

/-- The content cannot be read: the platform has no active editor when asked for its
file, or reading the file fails. -/
def Api.ReadFails (api : Api) : Prop :=
  api.getActiveEditor .content = none ∨
    ∃ e f ex, api.getActiveEditor .content = some e ∧ e.getFile = some f ∧
      readFile api f = .error ex

/-- The path is decided by the two fields. -/
theorem ViewState.takesReload_iff (s : ViewState P E) (e : IEditorPart) :
    s.TakesReload e ↔ ¬ s.Current e ∧ s.Named := by
  constructor
  · intro h
    have htest := h ⟨fun _ => some e, fun _ => .ok []⟩ rfl
    by_cases hs : s.Named
    · rw [run_showsActivatedEditor rfl hs] at htest
      refine ⟨?_, hs⟩
      intro hcur
      rw [decide_eq_true hcur] at htest
      cases htest
    · -- a page without a name: the comparison throws
      obtain ⟨page, name, viewer, printed⟩ := s
      obtain ⟨hpage, hname⟩ := Classical.not_imp.mp hs
      obtain ⟨pg, rfl⟩ := Option.isSome_iff_exists.mp hpage
      obtain rfl := Option.not_isSome_iff_eq_none.mp hname
      cases htest
  · rintro ⟨hcur, hs⟩ api hapi
    rw [run_showsActivatedEditor hapi hs, decide_eq_false hcur]

theorem readActiveEditor_eq_error_iff (api : Api) (pg : IWorkbenchPage) :
    (∃ ex, readActiveEditor api (some pg) = .error ex) ↔ api.ReadFails := by
  unfold readActiveEditor Api.ReadFails
  cases he : api.getActiveEditor .content with
  | none => simp
  | some e =>
    dsimp only
    split
    · next hf => simp [hf]
    · next f hf =>
      cases hread : readFile api f with
      | ok text => simp [hf, hread]
      | error ex => simp [hf, hread]

/-! ### What an activation can do -/

/-- The reload path is reached: there is no page yet, or the test for the refresh-only
path is negative. -/
def ViewState.Reloads (s : ViewState P E) (e : IEditorPart) (api : Api) : Prop :=
  s.page = none ∨
    s.page.isSome = true ∧ ¬ s.Current e ∧ api.getActiveEditor .activatedName = some e

/-- **What the activation of a device tree editor can do**, with the fields it leaves. -/
inductive Handling (K : ProviderClass P E) (api : Api) (e : IEditorPart) (s : ViewState P E) :
    EStateM.Result JavaException (ViewState P E) Unit → Prop
  /-- The refresh-only path. -/
  | refresh : s.Current e → api.getActiveEditor .activatedName = some e →
      Handling K api e s (.ok () { s with viewer := s.viewer.refresh K })
  /-- The first call for the active editor returns null. -/
  | testAborts : s.page.isSome = true → api.getActiveEditor .activatedName = none →
      Handling K api e s (.error .nullPointer s)
  /-- The call for the new name returns null; the page has been assigned. -/
  | nameAborts : s.Reloads e api → api.getActiveEditor .reloadName = none →
      Handling K api e s (.error .nullPointer { s with page := some .window })
  /-- The content cannot be read; page and name have been assigned. -/
  | readFails (ex : JavaException) : s.Reloads e api →
      api.getActiveEditor .reloadName = some e → api.ReadFails →
      Handling K api e s (.ok () ⟨some .window, some e.getName,
        s.viewer.setContentProvider K (K.new none), s.printed ++ [ex]⟩)
  /-- The content is installed. -/
  | loads (c : Option Content) : s.Reloads e api →
      api.getActiveEditor .reloadName = some e → ¬ api.ReadFails →
      Handling K api e s (.ok () ⟨some .window, some e.getName,
        s.viewer.setContentProvider K (K.new c), s.printed⟩)

section Handling

variable {K : ProviderClass P E} {api : Api} {e : IEditorPart} {s : ViewState P E}

/-- The reload path, call by call. -/
theorem handling_of_reloads (hid : e.id = DeviceTreeEditor.ID)
    (hanswers : ∀ site, api.getActiveEditor site = none ∨ api.getActiveEditor site = some e)
    (hreloads : s.Reloads e api) (htest : (showsActivatedEditor api).run s = .ok false s) :
    Handling K api e s ((partActivated K api (.editor e)).run s) := by
  rw [run_partActivated_reload K hid htest, EStateM.run_bind]
  rcases hanswers .reloadName with hname | hname
  · rw [run_followActiveEditor_null hname]
    exact .nameAborts hreloads hname
  · rw [run_followActiveEditor hname]
    cases hread : readActiveEditor api (some .window) with
    | error ex =>
      have hfails := (readActiveEditor_eq_error_iff api .window).mp ⟨ex, hread⟩
      exact .readFails ex hreloads hname hfails
    | ok c =>
      refine .loads c hreloads hname ?_
      intro hfails
      obtain ⟨ex, hex⟩ := (readActiveEditor_eq_error_iff api .window).mpr hfails
      rw [hread] at hex
      cases hex

theorem handling_partActivated (hid : e.id = DeviceTreeEditor.ID)
    (hanswers : ∀ site, api.getActiveEditor site = none ∨ api.getActiveEditor site = some e)
    (hs : s.Named) : Handling K api e s ((partActivated K api (.editor e)).run s) := by
  cases hpage : s.page with
  | none =>
    exact handling_of_reloads hid hanswers (Or.inl hpage)
      (run_showsActivatedEditor_of_page_none api hpage)
  | some pg =>
    have hsome : s.page.isSome = true := by rw [hpage]; rfl
    rcases hanswers .activatedName with htest | htest
    · have hrun : (partActivated K api (.editor e)).run s = .error .nullPointer s := by
        simp [partActivated, hid, run_showsActivatedEditor_null htest hsome]
      rw [hrun]
      exact .testAborts hsome htest
    · have hrun := run_showsActivatedEditor htest hs
      by_cases hcur : s.Current e
      · rw [decide_eq_true hcur] at hrun
        rw [run_partActivated_refresh K hid hrun]
        exact .refresh hcur htest
      · rw [decide_eq_false hcur] at hrun
        exact handling_of_reloads hid hanswers (Or.inr ⟨hsome, hcur, htest⟩) hrun

/-- The activation leaves `page` and `currEditorName` alone, and the next activation of
the same editor takes the reload path. -/
def ViewState.Restores (s s' : ViewState P E) (e : IEditorPart) : Prop :=
  (s'.page = s.page ∧ s'.currEditorName = s.currEditorName) ∧ s'.TakesReload e

/-- The answers with which an activation fails without a trace, if at all: a view without
a page gets all its answers; one that shows the editor gets the first; and one that
reloads can read the content once it has got the name. -/
structure Api.Harmless (api : Api) (s : ViewState P E) (e : IEditorPart) : Prop where
  first : s.page = none → api.getActiveEditor .reloadName ≠ none ∧ ¬ api.ReadFails
  shown : s.Current e → api.getActiveEditor .activatedName ≠ none
  reload : s.page.isSome = true → ¬ s.Current e → api.getActiveEditor .activatedName ≠ none →
    api.getActiveEditor .reloadName ≠ none → ¬ api.ReadFails

theorem ViewState.Reloads.not_current (h : s.Reloads e api) : ¬ s.Current e := by
  rcases h with hnone | ⟨-, hcur, -⟩
  · intro hcur
    exact Option.isSome_iff_ne_none.mp hcur.1 hnone
  · exact hcur

/-- On the reload path, harmless answers are those that can be read. -/
theorem ViewState.Reloads.harmless_iff (h : s.Reloads e api)
    (hname : api.getActiveEditor .reloadName ≠ none) : api.Harmless s e ↔ ¬ api.ReadFails := by
  constructor
  · intro hharmless
    rcases h with hnone | ⟨hsome, hcur, htest⟩
    · exact (hharmless.first hnone).2
    · exact hharmless.reload hsome hcur (by rw [htest]; simp) hname
  · intro hread
    exact ⟨fun _ => ⟨hname, hread⟩, fun hcur => absurd hcur h.not_current, fun _ _ _ _ => hread⟩

/-- **One activation**: a failure leaves no trace exactly when the answers are harmless. -/
theorem Handling.restores_iff {r : EStateM.Result JavaException (ViewState P E) Unit}
    (h : Handling K api e s r) (hs : s.Named) :
    (((∃ ex s', r = .error ex s') ∨ (stateAfter r).printed ≠ s.printed) →
        s.Restores (stateAfter r) e) ↔ api.Harmless s e := by
  cases h with
  | refresh hcur htest =>
    have hnot : s.page ≠ none := Option.isSome_iff_ne_none.mp hcur.1
    refine iff_of_true ?_ ⟨fun hnone => absurd hnone hnot, fun _ => by rw [htest]; simp,
      fun _ hncur => absurd hcur hncur⟩
    rintro (⟨ex, s', herr⟩ | hprinted)
    · cases herr
    · exact absurd rfl hprinted
  | testAborts hsome htest =>
    have hnot : s.page ≠ none := Option.isSome_iff_ne_none.mp hsome
    constructor
    · intro hrestores
      have hreload := (hrestores (Or.inl ⟨_, _, rfl⟩)).2
      have hcur : ¬ s.Current e := ((s.takesReload_iff e).mp hreload).1
      exact ⟨fun hnone => absurd hnone hnot, fun hc => absurd hc hcur,
        fun _ _ hne => absurd htest hne⟩
    · rintro hharmless -
      have hcur : ¬ s.Current e := fun hc => hharmless.shown hc htest
      exact ⟨⟨rfl, rfl⟩, (s.takesReload_iff e).mpr ⟨hcur, hs⟩⟩
  | nameAborts hreloads hname =>
    rcases hreloads with hnone | ⟨hsome, hcur, htest⟩
    · refine iff_of_false ?_ fun hharmless => (hharmless.first hnone).1 hname
      intro hrestores
      have hpage : some IWorkbenchPage.window = s.page := (hrestores (Or.inl ⟨_, _, rfl⟩)).1.1
      rw [hnone] at hpage
      cases hpage
    · -- there is only one page, so assigning it again changes nothing
      have hsame : { s with page := some IWorkbenchPage.window } = s := by
        obtain ⟨page, name, viewer, printed⟩ := s
        obtain ⟨pg, rfl⟩ := Option.isSome_iff_exists.mp hsome
        rfl
      have hnot : s.page ≠ none := Option.isSome_iff_ne_none.mp hsome
      refine iff_of_true ?_ ⟨fun hnone => absurd hnone hnot, fun hc => absurd hc hcur,
        fun _ _ _ hne => absurd hname hne⟩
      intro _
      rw [stateAfter_error, hsame]
      exact ⟨⟨rfl, rfl⟩, (s.takesReload_iff e).mpr ⟨hcur, hs⟩⟩
  | readFails ex hreloads hname hfails =>
    rw [hreloads.harmless_iff (by rw [hname]; simp)]
    refine iff_of_false ?_ fun hread => hread hfails
    intro hrestores
    -- the next activation finds the page and the name of this one
    have hreload := (hrestores (Or.inr (by simp))).2
    exact ((ViewState.takesReload_iff _ e).mp hreload).1 ⟨rfl, rfl⟩
  | loads c hreloads hname hread =>
    rw [hreloads.harmless_iff (by rw [hname]; simp)]
    refine iff_of_true ?_ hread
    rintro (⟨ex, s', herr⟩ | hprinted)
    · cases herr
    · exact absurd rfl hprinted

/-- With harmless answers, a set page still comes with a name. -/
theorem Handling.named {r : EStateM.Result JavaException (ViewState P E) Unit}
    (h : Handling K api e s r) (hs : s.Named) (hharmless : api.Harmless s e) :
    (stateAfter r).Named := by
  cases h with
  | refresh _ _ => exact hs
  | testAborts _ _ => exact hs
  | nameAborts hreloads hname =>
    rcases hreloads with hnone | ⟨hsome, -, -⟩
    · exact absurd hname (hharmless.first hnone).1
    · exact fun _ => hs hsome
  | readFails ex _ _ _ => exact fun _ => rfl
  | loads c _ _ _ => exact fun _ => rfl

end Handling

/-! ### Runs -/

section Runs

variable {V : ViewClass P E} {s : ViewState P E}

/-- Only the activation of a device tree editor assigns the two fields. -/
theorem deliver_fields {d : Delivery}
    (h : ∀ e, d.event = .activated (.editor e) → e.id ≠ DeviceTreeEditor.ID) :
    (V.deliver s d).page = s.page ∧ (V.deliver s d).currEditorName = s.currEditorName := by
  obtain ⟨event, api, answers⟩ := d
  cases event with
  | editorClosed => exact ⟨rfl, rfl⟩
  | edited e text => exact ⟨rfl, rfl⟩
  | activated part =>
    have hne : part.getId ≠ DeviceTreeEditor.ID := by
      cases part with
      | editor e => exact h e rfl
      | view v => exact v.id_ne
    have hrun : V.deliver s ⟨.activated part, api, answers⟩ = s := by
      simp [ViewClass.deliver, ViewClass.handle, run_partActivated_of_ne V.provider hne]
    rw [hrun]
    exact ⟨rfl, rfl⟩
  | resource event =>
    by_cases hpost : V.listensToResources = true ∧ ∃ delta, event = .postChange delta
    · obtain ⟨hl, delta, rfl⟩ := hpost
      simp only [ViewClass.deliver, ViewClass.handle, hl, IResourceChangeEvent.inMask,
        Bool.and_self, ↓reduceIte, resourceChanged, EStateM.run_bind,
        run_getDeviceTreeEditorContent]
      cases readActiveEditor api s.page <;> exact ⟨rfl, rfl⟩
    · have hrun : V.deliver s ⟨.resource event, api, answers⟩ = s := by
        simp [ViewClass.deliver, run_handle_resource_of_not hpost]
      rw [hrun]
      exact ⟨rfl, rfl⟩

/-- The activation of a device tree editor is handled as `Handling` says. -/
theorem handling_deliver {d : Delivery} {e : IEditorPart} (hev : d.event = .activated (.editor e))
    (hid : e.id = DeviceTreeEditor.ID) (hs : s.Named) :
    Handling V.provider d.api e s ((V.handle d.api d.event).run s) := by
  have hrun := handling_partActivated (K := V.provider) hid (d.answers e hev) hs
  rw [hev]
  exact hrun

theorem named_deliver {d : Delivery} (hs : s.Named)
    (hharmless : ∀ e, d.event = .activated (.editor e) → e.id = DeviceTreeEditor.ID →
      d.api.Harmless s e) : (V.deliver s d).Named := by
  by_cases hact : ∀ e, d.event = .activated (.editor e) → e.id ≠ DeviceTreeEditor.ID
  · obtain ⟨hpage, hname⟩ := deliver_fields (V := V) (s := s) hact
    intro hsome
    rw [hpage] at hsome
    rw [hname]
    exact hs hsome
  · push Not at hact
    obtain ⟨e, hev, hid⟩ := hact
    exact (handling_deliver hev hid hs).named hs (hharmless e hev hid)

/-- A view that has been created has a name when it has a page. -/
theorem named_createPartControl {K : ProviderClass P E} {api : Api}
    {part : Option IWorkbenchPart}
    (h : (createPartControl K api part).run ViewState.new = .ok () s) : s.Named := by
  cases part with
  | none =>
    cases h
    intro hsome
    cases hsome
  | some part =>
    unfold createPartControl at h
    cases he : api.getActiveEditor .createName with
    | none => simp [run_followActiveEditor_null he] at h
    | some e =>
      simp only [EStateM.run_bind, run_followActiveEditor he] at h
      cases hread : readActiveEditor api (some part.getPage) with
      | ok c =>
        rw [hread] at h
        cases h
        exact fun _ => rfl
      | error ex =>
        rw [hread] at h
        cases h
        exact fun _ => rfl

/-- The exact condition for a view of either class. -/
theorem eachStep_restores_iff (V : ViewClass P E) (hs : s.Named) (ds : List Delivery) :
    Run.EachStep V.deliver
        (fun s d => ∀ e, d.event = .activated (.editor e) → e.id = DeviceTreeEditor.ID →
          V.Failed s d → s.Restores (V.deliver s d) e) s ds ↔
      Run.EachStep V.deliver
        (fun s d => ∀ e, d.event = .activated (.editor e) → e.id = DeviceTreeEditor.ID →
          d.api.Harmless s e) s ds := by
  refine Run.eachStep_congr (I := ViewState.Named) (fun s d => named_deliver) ?_ hs
  intro s d hs
  refine forall_congr' fun e => forall_congr' fun hev => forall_congr' fun hid => ?_
  exact (handling_deliver hev hid hs).restores_iff hs

end Runs

/-- **A failed activation leaves `page` and `currEditorName` as they were, and the next
activation of the editor takes the reload path, along every run of either view exactly
when** the answers to each activation of a device tree editor are harmless. -/
theorem failed_activation_restores_iff (lib : SilverLeaves) (api : Api)
    (part : Option IWorkbenchPart) (ds : List Delivery) :
    (∀ s, (createPartControl (DeviceTreeView lib).provider api part).run ViewState.new = .ok () s →
      (Run.EachStep (DeviceTreeView lib).deliver
          (fun s d => ∀ e, d.event = .activated (.editor e) → e.id = DeviceTreeEditor.ID →
            (DeviceTreeView lib).Failed s d →
              s.Restores ((DeviceTreeView lib).deliver s d) e) s ds ↔
        Run.EachStep (DeviceTreeView lib).deliver
          (fun s d => ∀ e, d.event = .activated (.editor e) → e.id = DeviceTreeEditor.ID →
            d.api.Harmless s e) s ds)) ∧
    ∀ s, (createPartControl (MemoryView lib).provider api part).run ViewState.new = .ok () s →
      (Run.EachStep (MemoryView lib).deliver
          (fun s d => ∀ e, d.event = .activated (.editor e) → e.id = DeviceTreeEditor.ID →
            (MemoryView lib).Failed s d → s.Restores ((MemoryView lib).deliver s d) e) s ds ↔
        Run.EachStep (MemoryView lib).deliver
          (fun s d => ∀ e, d.event = .activated (.editor e) → e.id = DeviceTreeEditor.ID →
            d.api.Harmless s e) s ds) := by
  constructor
  · intro s hcreate
    exact eachStep_restores_iff (DeviceTreeView lib) (named_createPartControl hcreate) ds
  · intro s hcreate
    exact eachStep_restores_iff (MemoryView lib) (named_createPartControl hcreate) ds

/-- The activation of an editor in the sample workspace, with null at some call sites. -/
def activationOf (e : IEditorPart) (nulls : List CallSite) : Delivery where
  event := .activated (.editor e)
  api := ⟨fun site => if site ∈ nulls then none else some e, sampleWorld.api.getContents⟩
  answers := by
    intro e' he site
    cases he
    dsimp only
    split
    · exact Or.inl rfl
    · exact Or.inr rfl

theorem not_readFails_activationOf_nil (e : IEditorPart) :
    ¬ (activationOf e []).api.ReadFails := by
  rintro (hnone | ⟨e', f, ex, -, -, hread⟩)
  · cases hnone
  · have hok : readFile (activationOf e []).api f = readFile sampleWorld.api f := rfl
    rw [hok, readFile_api] at hread
    cases hread

/-- Null at the first call leaves no trace in a view that shows another editor. -/
theorem failed_activation_restores_sample :
    ∃ s, (createPartControl (DeviceTreeView attributeLibrary).provider sampleWorld.api none).run
        ViewState.new = .ok () s ∧
      Run.EachStep (DeviceTreeView attributeLibrary).deliver
        (fun s d => ∀ e, d.event = .activated (.editor e) → e.id = DeviceTreeEditor.ID →
          (DeviceTreeView attributeLibrary).Failed s d →
            s.Restores ((DeviceTreeView attributeLibrary).deliver s d) e) s
        [activationOf editorX [], activationOf editorY [.activatedName]] := by
  refine ⟨_, rfl, ((failed_activation_restores_iff attributeLibrary sampleWorld.api none _).1 _
    rfl).mpr ⟨?_, ?_, trivial⟩⟩
  · rintro e hev -
    cases hev
    refine ⟨fun _ => ⟨nofun, not_readFails_activationOf_nil _⟩, ?_, ?_⟩
    · rintro ⟨hsome, -⟩
      cases hsome
    · intro hsome
      cases hsome
  · rintro e hev -
    cases hev
    refine ⟨nofun, ?_, ?_⟩
    · rintro ⟨-, hname⟩
      exact absurd hname (by decide)
    · rintro - - htest
      exact absurd rfl htest

/-- In a view without a page, null for the name sets the page and leaves no name. -/
theorem failed_activation_restores_fails :
    ¬ ∀ (lib : SilverLeaves) (api : Api) (part : Option IWorkbenchPart)
        (s : ViewState DeviceTreeContentProvider TreeElement),
      (createPartControl (DeviceTreeView lib).provider api part).run ViewState.new = .ok () s →
      ∀ ds, Run.EachStep (DeviceTreeView lib).deliver
        (fun s d => ∀ e, d.event = .activated (.editor e) → e.id = DeviceTreeEditor.ID →
          (DeviceTreeView lib).Failed s d →
            s.Restores ((DeviceTreeView lib).deliver s d) e) s ds := by
  intro h
  have hrun := h attributeLibrary sampleWorld.api none _ rfl [activationOf editorX [.reloadName]]
  have hpage := (hrun.1 editorX rfl rfl (Or.inl ⟨_, _, rfl⟩)).1.1
  cases hpage

end SilverTree
