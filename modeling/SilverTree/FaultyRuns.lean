import SilverTree.Failures
import SilverTree.ViewHistory

/-!
# Views on a platform that fails

Between `page = partRef.getPage()` and the assignment to `currEditorName` the platform
is asked for the active editor.  If it answers null to the first activation a view ever
hears of, the view is left with a page and without a name, and from then on the comparison
of names throws.  Other failures do less harm: an activation under another name repairs
them.

## Main definitions

* `Delivery.activates` — the delivery activates a device tree editor.
* `ViewState.Fresh`, `ViewState.Settled`, `ViewState.Stuck` — neither a page nor a name, both,
  and a page without a name.
* `Delivery.Reads d e c` — an activation of `e` in which no call fails.

## Main results

* `ViewState.Fresh.foldl` — when a run ends with a page and no name.
* `throws_forever_iff` — **a view throws at every activation from some point on exactly when
  the first activation it heard of was answered null for the name.**
* `two_activations_load_iff` — **otherwise two activations without failures, under different
  names, bring it back.**
* `no_content_until_switch` — **after a failed read a view has no content until an editor of
  another name is activated.**
-/

namespace SilverTree

variable {P E : Type}

/-- The delivery activates a device tree editor. -/
def Delivery.activates (d : Delivery) : Bool := d.event.activatedName.isSome

theorem Delivery.exists_of_activates {d : Delivery} (h : d.activates = true) :
    ∃ e, d.event = .activated (.editor e) ∧ e.id = DeviceTreeEditor.ID := by
  obtain ⟨n, hn⟩ := Option.isSome_iff_exists.mp h
  obtain ⟨e, hev, hid, -⟩ := Event.exists_of_activatedName hn
  exact ⟨e, hev, hid⟩

theorem Delivery.not_activates {d : Delivery} (h : d.activates = false) :
    ∀ e, d.event = .activated (.editor e) → e.id ≠ DeviceTreeEditor.ID := by
  intro e hev hid
  have hname : d.event.activatedName = some e.getName := by
    rw [hev, Event.activatedName_editor hid]
  rw [Delivery.activates, hname] at h
  cases h

/-- No activation has been heard of yet. -/
def ViewState.Fresh (s : ViewState P E) : Prop := s.page = none ∧ s.currEditorName = none

/-- There is a page with a name to compare with. -/
def ViewState.Settled (s : ViewState P E) : Prop :=
  s.page.isSome = true ∧ s.currEditorName.isSome = true

/-- A page without a name: the comparison of names throws. -/
def ViewState.Stuck (s : ViewState P E) : Prop := s.page.isSome = true ∧ s.currEditorName = none

theorem ViewState.Fresh.named {s : ViewState P E} (h : s.Fresh) : s.Named := by
  intro hsome
  rw [h.1] at hsome
  cases hsome

theorem ViewState.Settled.named {s : ViewState P E} (h : s.Settled) : s.Named := fun _ => h.2

/-! ### Stuck views -/

section Stuck

variable {V : ViewClass P E} {s : ViewState P E}

/-- **A view without a name throws at every activation** of a device tree editor, whatever
the platform answers, and stays as it is. -/
theorem ViewState.Stuck.run_handle (h : s.Stuck) {d : Delivery} (hd : d.activates = true) :
    (V.handle d.api d.event).run s = .error .nullPointer s := by
  obtain ⟨e, hev, hid⟩ := Delivery.exists_of_activates hd
  obtain ⟨pg, hpg⟩ := Option.isSome_iff_exists.mp h.1
  have htest : (showsActivatedEditor d.api).run s = .error .nullPointer s := by
    cases hans : d.api.getActiveEditor .activatedName with
    | none => exact run_showsActivatedEditor_null hans h.1
    | some e' =>
      simp only [showsActivatedEditor, EStateM.run_bind, EStateM.run_get, hpg, reduceCtorEq,
        ↓reduceIte, hans, run_deref_some, h.2, run_deref_none]
  rw [hev]
  change (partActivated V.provider d.api (.editor e)).run s = _
  simp [partActivated, hid, htest]

theorem ViewState.Stuck.deliver (h : s.Stuck) (d : Delivery) : (V.deliver s d).Stuck := by
  cases hd : d.activates with
  | true =>
    rw [ViewClass.deliver, h.run_handle hd]
    exact h
  | false =>
    obtain ⟨hpage, hname⟩ := deliver_fields (V := V) (s := s) (Delivery.not_activates hd)
    rw [Stuck, hpage, hname]
    exact h

/-- Once a view has a page and a name, it keeps having both. -/
theorem ViewState.Settled.deliver (h : s.Settled) (d : Delivery) : (V.deliver s d).Settled := by
  cases hd : d.activates with
  | false =>
    obtain ⟨hpage, hname⟩ := deliver_fields (V := V) (s := s) (Delivery.not_activates hd)
    rw [Settled, hpage, hname]
    exact h
  | true =>
    obtain ⟨e, hev, hid⟩ := Delivery.exists_of_activates hd
    have hhandling := handling_deliver (V := V) hev hid h.named
    rw [ViewClass.deliver]
    generalize (V.handle d.api d.event).run s = r at hhandling
    cases hhandling with
    | refresh _ _ => exact h
    | testAborts _ _ => exact h
    | nameAborts _ _ => exact ⟨rfl, h.2⟩
    | readFails ex _ _ _ => exact ⟨rfl, rfl⟩
    | loads c _ _ _ => exact ⟨rfl, rfl⟩

/-- Until the first activation nothing is assigned. -/
theorem ViewState.Fresh.deliver (h : s.Fresh) {d : Delivery} (hd : d.activates = false) :
    (V.deliver s d).Fresh := by
  obtain ⟨hpage, hname⟩ := deliver_fields (V := V) (s := s) (Delivery.not_activates hd)
  rw [Fresh, hpage, hname]
  exact h

/-- **The first activation decides**: null for the name leaves a page without a name, any
other answer a page and a name. -/
theorem ViewState.Fresh.deliver_activation (h : s.Fresh) {d : Delivery} (hd : d.activates = true) :
    (d.api.getActiveEditor .reloadName = none ∧ (V.deliver s d).Stuck) ∨
      (d.api.getActiveEditor .reloadName ≠ none ∧ (V.deliver s d).Settled) := by
  obtain ⟨e, hev, hid⟩ := Delivery.exists_of_activates hd
  have hnone : ¬ s.page.isSome = true := by simp [h.1]
  have hhandling := handling_deliver (V := V) hev hid h.named
  rw [ViewClass.deliver]
  generalize (V.handle d.api d.event).run s = r at hhandling
  cases hhandling with
  | refresh hcur _ => exact absurd hcur.1 hnone
  | testAborts hsome _ => exact absurd hsome hnone
  | nameAborts _ hname => exact Or.inl ⟨hname, rfl, h.2⟩
  | readFails ex _ hname _ => exact Or.inr ⟨by simp [hname], rfl, rfl⟩
  | loads c _ hname _ => exact Or.inr ⟨by simp [hname], rfl, rfl⟩

theorem ViewState.Settled.foldl (h : s.Settled) (ds : List Delivery) :
    (ds.foldl V.deliver s).Settled :=
  Run.invariant_foldl (fun _ d h => h.deliver d) ds h

theorem ViewState.Stuck.foldl (h : s.Stuck) (ds : List Delivery) : (ds.foldl V.deliver s).Stuck :=
  Run.invariant_foldl (fun _ d h => h.deliver d) ds h

/-- The first activation among the deliveries is answered null for the name. -/
def FirstNameNull (ds : List Delivery) : Prop :=
  ∃ d, ds.find? Delivery.activates = some d ∧ d.api.getActiveEditor .reloadName = none

/-- **A run ends with a page and no name exactly when** its first activation is answered
null for the name; else it ends as it began, or with both. -/
theorem ViewState.Fresh.foldl (ds : List Delivery) : ∀ {s : ViewState P E}, s.Fresh →
    (FirstNameNull ds ∧ (ds.foldl V.deliver s).Stuck) ∨
      (¬ FirstNameNull ds ∧ ((ds.foldl V.deliver s).Fresh ∨ (ds.foldl V.deliver s).Settled)) := by
  induction ds with
  | nil => intro s h; exact Or.inr ⟨by simp [FirstNameNull], Or.inl h⟩
  | cons d ds ih =>
    intro s h
    rw [List.foldl_cons]
    cases hd : d.activates with
    | false =>
      have hfirst : FirstNameNull (d :: ds) ↔ FirstNameNull ds := by
        unfold FirstNameNull
        rw [List.find?_cons_of_neg (by simp [hd])]
      rw [hfirst]
      exact ih (h.deliver hd)
    | true =>
      have hfirst : FirstNameNull (d :: ds) ↔ d.api.getActiveEditor .reloadName = none := by
        unfold FirstNameNull
        rw [List.find?_cons_of_pos hd]
        simp
      rw [hfirst]
      rcases h.deliver_activation (V := V) hd with ⟨hnull, hstuck⟩ | ⟨hname, hsettled⟩
      · exact Or.inl ⟨hnull, hstuck.foldl ds⟩
      · exact Or.inr ⟨hname, Or.inr (hsettled.foldl ds)⟩

end Stuck

/-! ### Runs of a view -/

section Runs

variable {V : ViewClass P E} {s : ViewState P E}

/-- A view that has been created has a viewer that is ready; it is settled if there was an
active part, and fresh otherwise. -/
theorem ready_createPartControl {K : ProviderClass P E} {api : Api} {part : Option IWorkbenchPart}
    (h : (createPartControl K api part).run ViewState.new = .ok () s) :
    s.viewer.Ready ∧ (part = none ∧ s.Fresh ∨ part ≠ none ∧ s.Settled) := by
  cases part with
  | none =>
    cases h
    exact ⟨Viewer.ready_mk _ _, Or.inl ⟨rfl, rfl, rfl⟩⟩
  | some part =>
    unfold createPartControl at h
    cases he : api.getActiveEditor .createName with
    | none => simp [run_followActiveEditor_null he] at h
    | some e =>
      simp only [EStateM.run_bind, run_followActiveEditor he] at h
      cases hread : readActiveEditor api (some part.getPage) with
      | ok c =>
        rw [hread] at h
        cases h
        exact ⟨Viewer.ready_mk _ _, Or.inr ⟨by simp, rfl, rfl⟩⟩
      | error ex =>
        rw [hread] at h
        cases h
        exact ⟨Viewer.ready_mk _ _, Or.inr ⟨by simp, rfl, rfl⟩⟩

/-- **A run of a view ends with a page and no name exactly when** the view was created
without an active part and the first activation is answered null for the name. -/
theorem stuck_or_named {api : Api} {part : Option IWorkbenchPart}
    (h : (createPartControl V.provider api part).run ViewState.new = .ok () s)
    (ds : List Delivery) :
    ((part = none ∧ FirstNameNull ds) ∧ (ds.foldl V.deliver s).Stuck) ∨
      (¬ (part = none ∧ FirstNameNull ds) ∧ (ds.foldl V.deliver s).Named) := by
  rcases (ready_createPartControl h).2 with ⟨hpart, hfresh⟩ | ⟨hpart, hsettled⟩
  · rcases hfresh.foldl (V := V) ds with ⟨hnull, hstuck⟩ | ⟨hnull, hend⟩
    · exact Or.inl ⟨⟨hpart, hnull⟩, hstuck⟩
    · exact Or.inr ⟨fun hboth => hnull hboth.2, hend.elim ViewState.Fresh.named
        ViewState.Settled.named⟩
  · exact Or.inr ⟨fun hboth => hpart hboth.1, (hsettled.foldl ds).named⟩

/-- An activation of `e` in which no call fails, and the content that is read. -/
structure Delivery.Reads (d : Delivery) (e : IEditorPart) (c : Option Content) : Prop where
  event : d.event = .activated (.editor e)
  id : e.id = DeviceTreeEditor.ID
  active : ∀ site, d.api.getActiveEditor site = some e
  content : readActiveEditor d.api (some .window) = .ok c

/-- **An activation without failures** refreshes the view or loads the content. -/
theorem Delivery.Reads.run_handle {d : Delivery} {e : IEditorPart} {c : Option Content}
    (h : d.Reads e c) (hs : s.Named) :
    (V.handle d.api d.event).run s =
      if s.Current e then .ok () { s with viewer := s.viewer.refresh V.provider }
      else .ok () ⟨some .window, some e.getName,
        s.viewer.setContentProvider V.provider (V.provider.new c), s.printed⟩ := by
  have htest := run_showsActivatedEditor (h.active .activatedName) hs
  rw [h.event]
  change (partActivated V.provider d.api (.editor e)).run s = _
  by_cases hcur : s.Current e
  · rw [decide_eq_true hcur] at htest
    rw [if_pos hcur, run_partActivated_refresh V.provider h.id htest]
  · rw [decide_eq_false hcur] at htest
    rw [if_neg hcur, run_partActivated_reload V.provider h.id htest, EStateM.run_bind,
      run_followActiveEditor (h.active .reloadName), h.content]
    rfl

/-- The activation of an editor on a file, with an empty file and no failure. -/
def plainActivation (file : IFile) : Delivery where
  event := .activated (.editor (deviceTreeEditorOn 0 file))
  api := ⟨fun _ => some (deviceTreeEditorOn 0 file), fun _ => .ok []⟩
  answers := by
    intro e he site
    cases he
    exact Or.inr rfl

theorem plainActivation_reads (file : IFile) : (plainActivation file).Reads
    (deviceTreeEditorOn 0 file) (some ⟨[], deviceTreeEditorOn 0 file, file, rfl⟩) :=
  ⟨rfl, rfl, fun _ => rfl, rfl⟩

/-- **A view throws at every activation from some point on exactly when** it was created
without an active part, and null was the answer for the name at the first activation. -/
theorem throws_forever_iff (V : ViewClass P E) {api : Api} {part : Option IWorkbenchPart}
    {s : ViewState P E} (h : (createPartControl V.provider api part).run ViewState.new = .ok () s)
    (ds : List Delivery) :
    (∀ ds' d, Delivery.activates d = true →
      (V.handle d.api d.event).run ((ds ++ ds').foldl V.deliver s)
        = .error .nullPointer ((ds ++ ds').foldl V.deliver s)) ↔
      part = none ∧ FirstNameNull ds := by
  constructor
  · intro hthrows
    rcases stuck_or_named h ds with ⟨hfirst, -⟩ | ⟨-, hnamed⟩
    · exact hfirst
    · have herr := hthrows [] (plainActivation fileX) rfl
      rw [List.append_nil, (plainActivation_reads fileX).run_handle hnamed] at herr
      split at herr
      · cases herr
      · cases herr
  · intro hfirst ds' d hd
    rcases stuck_or_named h ds with ⟨-, hstuck⟩ | ⟨hno, -⟩
    · rw [List.foldl_append]
      exact (hstuck.foldl ds').run_handle hd
    · exact absurd hfirst hno

/-- A view created without an active part that is answered null throws ever after. -/
theorem throws_forever_editorX :
    ∃ s, (createPartControl (DeviceTreeView attributeLibrary).provider sampleWorld.api none).run
        ViewState.new = .ok () s ∧
      ∀ ds' d, Delivery.activates d = true →
        ((DeviceTreeView attributeLibrary).handle d.api d.event).run
            (([activationOf editorX [.reloadName]] ++ ds').foldl
              (DeviceTreeView attributeLibrary).deliver s)
          = .error .nullPointer (([activationOf editorX [.reloadName]] ++ ds').foldl
              (DeviceTreeView attributeLibrary).deliver s) := by
  have hcreate : (createPartControl (DeviceTreeView attributeLibrary).provider sampleWorld.api
      none).run ViewState.new = .ok () _ := rfl
  exact ⟨_, hcreate, (throws_forever_iff (DeviceTreeView attributeLibrary) hcreate _).mpr
    ⟨rfl, activationOf editorX [.reloadName], rfl, rfl⟩⟩

/-- What does not activate a device tree editor leaves the viewer alone, or installs a new
provider on a `POST_CHANGE`. -/
theorem deliver_viewer {d : Delivery} (hd : d.activates = false) :
    ((V.deliver s d).viewer = s.viewer) ∨
      (V.listensToResources = true ∧ ∃ delta, d.event = .resource (.postChange delta)) ∧
        ∃ c, (V.deliver s d).viewer
          = s.viewer.setContentProvider V.provider (V.provider.new c) := by
  obtain ⟨event, api, answers⟩ := d
  cases event with
  | editorClosed => exact Or.inl rfl
  | edited e text => exact Or.inl rfl
  | activated part =>
    have hne : part.getId ≠ DeviceTreeEditor.ID := by
      cases part with
      | editor e => exact Delivery.not_activates hd e rfl
      | view v => exact v.id_ne
    refine Or.inl ?_
    simp [ViewClass.deliver, ViewClass.handle, run_partActivated_of_ne V.provider hne]
  | resource event =>
    by_cases hpost : V.listensToResources = true ∧ ∃ delta, event = .postChange delta
    · refine Or.inr ⟨?_, ?_⟩
      · obtain ⟨hl, delta, rfl⟩ := hpost
        exact ⟨hl, delta, rfl⟩
      · obtain ⟨hl, delta, rfl⟩ := hpost
        simp only [ViewClass.deliver, ViewClass.handle, hl, IResourceChangeEvent.inMask,
          Bool.and_self, ↓reduceIte, resourceChanged, EStateM.run_bind,
          run_getDeviceTreeEditorContent]
        cases readActiveEditor api s.page with
        | ok c => exact ⟨c, rfl⟩
        | error ex => exact ⟨none, rfl⟩
    · refine Or.inl ?_
      simp [ViewClass.deliver, run_handle_resource_of_not hpost]

/-- The viewer of a view stays ready. -/
theorem ready_deliver (hready : s.viewer.Ready) (d : Delivery) :
    (V.deliver s d).viewer.Ready := by
  have hinstall : ∀ c, (s.viewer.setContentProvider V.provider (V.provider.new c)).Ready := by
    intro c
    rw [Viewer.setContentProvider_of_ready hready]
    exact Viewer.ready_mk _ _
  cases hd : d.activates with
  | false =>
    rcases deliver_viewer (V := V) (s := s) hd with hsame | ⟨-, c, hc⟩
    · rw [hsame]
      exact hready
    · rw [hc]
      exact hinstall c
  | true =>
    by_cases hs : s.Named
    · obtain ⟨e, hev, hid⟩ := Delivery.exists_of_activates hd
      have hhandling := handling_deliver (V := V) hev hid hs
      rw [ViewClass.deliver]
      generalize (V.handle d.api d.event).run s = r at hhandling
      cases hhandling with
      | refresh _ _ =>
        obtain ⟨p, -, hrefresh⟩ := Viewer.refresh_of_ready (K := V.provider) hready
        change (s.viewer.refresh V.provider).Ready
        rw [hrefresh]
        exact Viewer.ready_mk _ _
      | testAborts _ _ => exact hready
      | nameAborts _ _ => exact hready
      | readFails ex _ _ _ => exact hinstall none
      | loads c _ _ _ => exact hinstall c
    · obtain ⟨hpage, hname⟩ := Classical.not_imp.mp hs
      have hstuck : s.Stuck := ⟨hpage, Option.not_isSome_iff_eq_none.mp hname⟩
      rw [ViewClass.deliver, hstuck.run_handle hd]
      exact hready

theorem ready_foldl {api : Api} {part : Option IWorkbenchPart}
    (h : (createPartControl V.provider api part).run ViewState.new = .ok () s)
    (ds : List Delivery) : (ds.foldl V.deliver s).viewer.Ready :=
  Run.invariant_foldl (I := fun s : ViewState P E => s.viewer.Ready)
    (fun _ d hready => ready_deliver hready d) ds (ready_createPartControl h).1

/-- The content string after a load. -/
theorem content_setContentProvider (hready : s.viewer.Ready) (c : Option Content) :
    (s.viewer.setContentProvider V.provider (V.provider.new c)).content V.provider = c := by
  rw [Viewer.setContentProvider_of_ready hready, Viewer.content_queried_new]

/-- After an activation without failures the view has the page and the name of the editor. -/
theorem Delivery.Reads.current_deliver {d : Delivery} {e : IEditorPart} {c : Option Content}
    (h : d.Reads e c) (hs : s.Named) : (V.deliver s d).Current e := by
  rw [ViewClass.deliver, h.run_handle hs]
  by_cases hcur : s.Current e
  · rw [if_pos hcur]
    exact hcur
  · rw [if_neg hcur]
    exact ⟨rfl, rfl⟩

/-- **Two activations without failures, under different names, load the second editor
exactly when** the view is not stuck. -/
theorem two_activations_load_iff (V : ViewClass P E) {api : Api} {part : Option IWorkbenchPart}
    {s : ViewState P E} (h : (createPartControl V.provider api part).run ViewState.new = .ok () s)
    (ds : List Delivery) {d₁ d₂ : Delivery} {e₁ e₂ : IEditorPart} {c₁ c₂ : Option Content}
    (h₁ : d₁.Reads e₁ c₁) (h₂ : d₂.Reads e₂ c₂) (hne : e₁.getName ≠ e₂.getName) :
    (((ds ++ [d₁, d₂]).foldl V.deliver s).currEditorName = some e₂.getName ∧
        ((ds ++ [d₁, d₂]).foldl V.deliver s).viewer.content V.provider = c₂) ↔
      ¬ (part = none ∧ FirstNameNull ds) := by
  rw [List.foldl_append, List.foldl_cons, List.foldl_cons, List.foldl_nil]
  rcases stuck_or_named h ds with ⟨hfirst, hstuck⟩ | ⟨hfirst, hnamed⟩
  · refine iff_of_false ?_ (not_not_intro hfirst)
    rintro ⟨hname, -⟩
    rw [((hstuck.deliver d₁).deliver d₂).2] at hname
    cases hname
  · refine iff_of_true ?_ hfirst
    have hcur₁ := h₁.current_deliver (V := V) hnamed
    have hnamed₁ : (V.deliver (ds.foldl V.deliver s) d₁).Named := by
      intro _
      rw [hcur₁.2]
      rfl
    have hcur₂ : ¬ (V.deliver (ds.foldl V.deliver s) d₁).Current e₂ := by
      rintro ⟨-, hname⟩
      rw [hcur₁.2] at hname
      exact hne (Option.some.inj hname)
    rw [ViewClass.deliver, h₂.run_handle hnamed₁, if_neg hcur₂, stateAfter_ok]
    exact ⟨rfl, content_setContentProvider (ready_deliver (ready_foldl h ds) d₁) c₂⟩

theorem activationOf_reads {e : IEditorPart} (hid : e.id = DeviceTreeEditor.ID) :
    (activationOf e []).Reads e (sampleWorld.contentOf e) := by
  refine ⟨rfl, hid, fun _ => rfl, ?_⟩
  have hapi : (activationOf e []).api = { sampleWorld with activeEditor := some e }.api := rfl
  rw [hapi, readActiveEditor_world]
  rfl

/-- A view that could not read `x.dts` reads `y.dts` after one more visit to each. -/
theorem two_activations_load_editorY :
    ∃ s, (createPartControl (MemoryView attributeLibrary).provider sampleWorld.api none).run
        ViewState.new = .ok () s ∧
      ([activationOf editorX [.content], activationOf editorX [], activationOf editorY []].foldl
        (MemoryView attributeLibrary).deliver s).viewer.content
          (MemoryView attributeLibrary).provider = sampleWorld.contentOf editorY := by
  have hcreate : (createPartControl (MemoryView attributeLibrary).provider sampleWorld.api
      none).run ViewState.new = .ok () _ := rfl
  have hfirst : ¬ ((none : Option IWorkbenchPart) = none ∧
      FirstNameNull [activationOf editorX [.content]]) := by
    rintro ⟨-, d, hd, hnull⟩
    cases hd
    cases hnull
  exact ⟨_, hcreate, ((two_activations_load_iff (MemoryView attributeLibrary) hcreate
    [activationOf editorX [.content]] (activationOf_reads rfl) (activationOf_reads rfl)
    (by decide)).mpr hfirst).2⟩

/-! ### After a failed read -/

/-- An activation under the name that is shown keeps the name and the content string, and
so does everything else but a `POST_CHANGE` that is listened to. -/
theorem deliver_same_name (hready : s.viewer.Ready) {n : String} (hpage : s.page.isSome = true)
    (hname : s.currEditorName = some n) {d : Delivery}
    (hsame : ∀ m, d.event.activatedName = some m → m = n)
    (hpost : V.listensToResources = true → ∀ delta, d.event ≠ .resource (.postChange delta)) :
    ((V.deliver s d).page.isSome = true ∧ (V.deliver s d).currEditorName = some n) ∧
      (V.deliver s d).viewer.content V.provider = s.viewer.content V.provider := by
  cases hd : d.activates with
  | false =>
    obtain ⟨hpg, hnm⟩ := deliver_fields (V := V) (s := s) (Delivery.not_activates hd)
    rw [hpg, hnm]
    refine ⟨⟨hpage, hname⟩, ?_⟩
    rcases deliver_viewer (V := V) (s := s) hd with hviewer | ⟨⟨hl, delta, hev⟩, -⟩
    · rw [hviewer]
    · exact absurd hev (hpost hl delta)
  | true =>
    obtain ⟨e, hev, hid⟩ := Delivery.exists_of_activates hd
    have he : e.getName = n := hsame _ (by rw [hev, Event.activatedName_editor hid])
    have hcur : s.Current e := ⟨hpage, by rw [hname, he]⟩
    have hs : s.Named := by
      intro _
      rw [hname]
      rfl
    have hhandling := handling_deliver (V := V) hev hid hs
    rw [ViewClass.deliver]
    generalize (V.handle d.api d.event).run s = r at hhandling
    cases hhandling with
    | refresh _ _ => exact ⟨⟨hpage, hname⟩, Viewer.content_refresh hready⟩
    | testAborts _ _ => exact ⟨⟨hpage, hname⟩, rfl⟩
    | nameAborts hreloads _ => exact absurd hcur hreloads.not_current
    | readFails ex hreloads _ _ => exact absurd hcur hreloads.not_current
    | loads c hreloads _ _ => exact absurd hcur hreloads.not_current

/-- The content string stays as long as all activations come under the name that is shown. -/
theorem content_foldl_same_name {n : String} {ds : List Delivery} :
    ∀ {s : ViewState P E}, s.viewer.Ready → s.page.isSome = true → s.currEditorName = some n →
      NoSwitch (some n) (ds.map Delivery.event) →
      (V.listensToResources = true → ∀ d ∈ ds, ∀ delta, d.event ≠ .resource (.postChange delta)) →
      (ds.foldl V.deliver s).viewer.content V.provider = s.viewer.content V.provider := by
  induction ds with
  | nil => intro s _ _ _ _ _; rfl
  | cons d ds ih =>
    intro s hready hpage hname hsame hpost
    have hfirst : ∀ m, d.event.activatedName = some m → m = n := by
      intro m hm
      exact (Option.some.inj (hsame d.event List.mem_cons_self m hm)).symm
    obtain ⟨⟨hpage', hname'⟩, hcontent⟩ := deliver_same_name (V := V) hready hpage hname hfirst
      fun hl => hpost hl d List.mem_cons_self
    rw [List.foldl_cons, ← hcontent]
    exact ih (ready_deliver hready d) hpage' hname'
      (fun ev hev => hsame ev (List.mem_cons_of_mem _ hev))
      fun hl d' hd' => hpost hl d' (List.mem_cons_of_mem _ hd')

/-- An activation that takes the reload path and cannot read the content. -/
structure Delivery.FailsToRead (d : Delivery) (e : IEditorPart) (s : ViewState P E) : Prop where
  event : d.event = .activated (.editor e)
  id : e.id = DeviceTreeEditor.ID
  reloads : s.Reloads e d.api
  name : d.api.getActiveEditor .reloadName = some e
  readFails : d.api.ReadFails

/-- A failed read leaves the page, the name of the editor and no content. -/
theorem Delivery.FailsToRead.deliver {d : Delivery} {e : IEditorPart} (h : d.FailsToRead e s)
    (hs : s.Named) (hready : s.viewer.Ready) :
    (V.deliver s d).Current e ∧ (V.deliver s d).viewer.content V.provider = none := by
  have hhandling := handling_deliver (V := V) h.event h.id hs
  rw [ViewClass.deliver]
  generalize (V.handle d.api d.event).run s = r at hhandling
  cases hhandling with
  | refresh hcur _ => exact absurd hcur h.reloads.not_current
  | testAborts hsome htest =>
    rcases h.reloads with hnone | ⟨-, -, hactive⟩
    · exact absurd hnone (Option.isSome_iff_ne_none.mp hsome)
    · rw [htest] at hactive
      cases hactive
  | nameAborts _ hname =>
    rw [h.name] at hname
    cases hname
  | readFails ex _ _ _ => exact ⟨⟨rfl, rfl⟩, content_setContentProvider hready none⟩
  | loads c _ _ hread => exact absurd h.readFails hread

/-- **After a failed read a view has no content until an editor of another name is
activated**, however often the same editor is, and whatever the platform answers then. -/
theorem no_content_until_switch (V : ViewClass P E) {api : Api} {part : Option IWorkbenchPart}
    {s : ViewState P E} (h : (createPartControl V.provider api part).run ViewState.new = .ok () s)
    (ds : List Delivery) (hfirst : ¬ (part = none ∧ FirstNameNull ds)) {d : Delivery}
    {e : IEditorPart} (hd : d.FailsToRead e (ds.foldl V.deliver s)) (ds' : List Delivery)
    (hsame : NoSwitch (some e.getName) (ds'.map Delivery.event))
    (hpost : V.listensToResources = true →
      ∀ d' ∈ ds', ∀ delta, d'.event ≠ .resource (.postChange delta)) :
    ((ds ++ d :: ds').foldl V.deliver s).viewer.content V.provider = none := by
  have hready := ready_foldl h ds
  have hnamed : (ds.foldl V.deliver s).Named := by
    rcases stuck_or_named h ds with ⟨hno, -⟩ | ⟨-, hnamed⟩
    · exact absurd hno hfirst
    · exact hnamed
  obtain ⟨⟨hpage, hname⟩, hcontent⟩ := hd.deliver (V := V) hnamed hready
  rw [List.foldl_append, List.foldl_cons,
    content_foldl_same_name (ready_deliver hready d) hpage hname hsame hpost, hcontent]

/-- A memory view whose first read fails shows nothing when the editor is activated again. -/
theorem no_content_until_switch_editorX :
    ∃ s, (createPartControl (MemoryView attributeLibrary).provider sampleWorld.api none).run
        ViewState.new = .ok () s ∧
      ([activationOf editorX [.content], activationOf editorX [], activationOf editorX []].foldl
        (MemoryView attributeLibrary).deliver s).viewer.content
          (MemoryView attributeLibrary).provider = none := by
  have hcreate : (createPartControl (MemoryView attributeLibrary).provider sampleWorld.api
      none).run ViewState.new = .ok () _ := rfl
  have hfirst : ¬ ((none : Option IWorkbenchPart) = none ∧ FirstNameNull []) := by
    rintro ⟨-, d, hd, -⟩
    cases hd
  have hsame : NoSwitch (some editorX.getName)
      ([activationOf editorX [], activationOf editorX []].map Delivery.event) := by
    intro ev hev n hn
    have hevent : ev = .activated (.editor editorX) := by
      simpa [activationOf] using hev
    rw [hevent] at hn
    exact hn
  exact ⟨_, hcreate, no_content_until_switch (MemoryView attributeLibrary) hcreate [] hfirst
    ⟨rfl, rfl, Or.inl rfl, rfl, Or.inl rfl⟩ [activationOf editorX [], activationOf editorX []]
    hsame (by intro hl; cases hl)⟩

end Runs

end SilverTree
