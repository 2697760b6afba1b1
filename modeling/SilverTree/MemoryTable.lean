import SilverTree.Provenance

/-!
# What the memory view shows

`MemoryView` queries its provider when the view is created, when an activation takes
the refresh-only path, and when a new provider replaces the old one.  The provider
answers a second query with no rows, so the table goes blank as soon as the editor it
shows is activated again.

## Main definitions

* `MemorySession` — a memory view in its workbench.
* `Session.ShowsMemoryMap` — the rows on display are the memory map of the installed
  content string, whenever the library can build it.

## Main results

* `showsMemoryMap_step_iff` — when an event keeps the table right.
* `rows_are_memoryMap_iff` — **when the table is right in every state of a session**,
  and which queries of one provider agree with the first.
-/

namespace SilverTree

variable {lib : SilverLeaves}

/-- A memory view in its workbench. -/
abbrev MemorySession := Session DeviceTreeMemoryProvider Address

variable (lib) in
/-- The rows on display are the memory map of the installed content string, whenever the
library can build it. -/
def Session.ShowsMemoryMap (s : MemorySession) : Prop :=
  ∀ c rows, s.content (MemoryView lib) = some c → memoryMap lib c.text = .ok rows →
    s.view.viewer.elements = rows

variable (lib) in
/-- The provider in the viewer has answered a query. -/
def Session.Queried (s : MemorySession) : Prop :=
  ∃ p, s.view.viewer.contentProvider = some (DeviceTreeMemoryProvider.getElements lib p).2

theorem rowsOfContent_of_memoryMap {c : Content} {rows : List Address}
    (h : memoryMap lib c.text = .ok rows) : rowsOfContent lib (some c) = rows := by
  rw [rowsOfContent, h]

/-- A table that shows the rows of the content string is right. -/
theorem Session.showsMemoryMap_of_elements {s : MemorySession}
    (h : s.view.viewer.elements = rowsOfContent lib (s.content (MemoryView lib))) :
    s.ShowsMemoryMap lib := by
  intro c rows hc hrows
  rw [h, hc, rowsOfContent_of_memoryMap hrows]

/-- A blank table is right only for a content string without rows. -/
theorem Session.showsMemoryMap_blank_iff {s : MemorySession} (h : s.view.viewer.elements = []) :
    s.ShowsMemoryMap lib ↔ NoRows lib (s.content (MemoryView lib)) := by
  rw [← rowsOfContent_eq_nil_iff]
  constructor
  · intro hshows
    cases hc : s.content (MemoryView lib) with
    | none => rfl
    | some c =>
      cases hrows : memoryMap lib c.text with
      | error e => rw [rowsOfContent, hrows]
      | ok rows => rw [rowsOfContent_of_memoryMap hrows, ← hshows c rows hc hrows, h]
  · intro hnil
    exact showsMemoryMap_of_elements (by rw [h, hnil])

/-! ### Sessions -/

/-- Installing a new provider shows the rows of its content string. -/
theorem queried_showsMemoryMap_of_new {s : MemorySession} {c : Option Content}
    (h : s.view.viewer =
      ⟨some ((DeviceTreeMemoryProvider.new c).getElements lib).2, true,
        ((DeviceTreeMemoryProvider.new c).getElements lib).1⟩) :
    s.Queried lib ∧ s.ShowsMemoryMap lib := by
  refine ⟨⟨_, by rw [h]⟩, Session.showsMemoryMap_of_elements ?_⟩
  have hcontent : s.content (MemoryView lib) = c := by
    rw [Session.content, h]
    exact Viewer.content_queried_new (K := (MemoryView lib).provider) c _
  rw [hcontent, h, getElements_new]

theorem queried_showsMemoryMap_openView {w : World} {s : MemorySession}
    (h : (MemoryView lib).openView w = .ok s) : s.Queried lib ∧ s.ShowsMemoryMap lib := by
  obtain ⟨c, hviewer⟩ := openView_viewer h
  exact queried_showsMemoryMap_of_new hviewer

/-- What a refresh does to the table: the rows go, the content string stays. -/
theorem elements_refreshOnly {s : MemorySession} (hs : s.Proper) (hq : s.Queried lib)
    {v : Viewer DeviceTreeMemoryProvider Address}
    (hv : v = s.view.viewer.refresh (MemoryView lib).provider) :
    v.elements = [] ∧
      ∃ p, v.contentProvider = some (DeviceTreeMemoryProvider.getElements lib p).2 := by
  obtain ⟨p, hp⟩ := hq
  obtain ⟨q, hq, hrefresh⟩ := Viewer.refresh_of_ready (K := (MemoryView lib).provider) hs.ready
  rw [hp] at hq
  cases hq
  rw [hv, hrefresh]
  exact ⟨getElements_getElements lib p, _, rfl⟩

theorem Session.Queried.step {s : MemorySession} (h : s.Queried lib) (hs : s.Proper) (ev : Event) :
    ((MemoryView lib).step s ev).Queried lib := by
  cases outcome (V := MemoryView lib) hs ev with
  | idle _ hview _ =>
    unfold Session.Queried
    rw [hview]
    exact h
  | refresh _ hview _ =>
    exact (elements_refreshOnly hs h (congrArg ViewState.viewer hview)).2
  | load page name c printed _ hview _ _ =>
    refine (queried_showsMemoryMap_of_new (c := c) ?_).1
    rw [hview]
    exact Viewer.setContentProvider_of_ready hs.ready _

/-- **One event keeps the table right exactly when** it does not refresh a table that
has rows. -/
theorem showsMemoryMap_step_iff {s : MemorySession} (hs : s.Proper) (hq : s.Queried lib)
    (h : s.ShowsMemoryMap lib) (ev : Event) :
    ((MemoryView lib).step s ev).ShowsMemoryMap lib ↔
      (s.RefreshOnly ev → NoRows lib (s.content (MemoryView lib))) := by
  cases outcome (V := MemoryView lib) hs ev with
  | idle hno hview _ =>
    refine iff_of_true ?_ fun hrefresh => absurd hrefresh hno
    unfold Session.ShowsMemoryMap Session.content
    rw [hview]
    exact h
  | refresh hrefresh hview _ =>
    have hblank := (elements_refreshOnly hs hq (congrArg ViewState.viewer hview)).1
    have hcontent : ((MemoryView lib).step s ev).content (MemoryView lib)
        = s.content (MemoryView lib) := by
      rw [Session.content, hview]
      exact Viewer.content_refresh hs.ready
    rw [Session.showsMemoryMap_blank_iff hblank, hcontent]
    exact ⟨fun hnone _ => hnone, fun hnone => hnone hrefresh⟩
  | load page name c printed hno hview _ _ =>
    refine iff_of_true ?_ fun hrefresh => absurd hrefresh hno
    refine (queried_showsMemoryMap_of_new (c := c) ?_).2
    rw [hview]
    exact Viewer.setContentProvider_of_ready hs.ready _

/-- **The table is right in every state of a session exactly when** no activation takes
the refresh-only path while the installed content string has a memory map with rows; and
the `n`-th query of a provider returns the rows of the first one exactly when it is the
first one or the map is empty or cannot be built. -/
theorem rows_are_memoryMap_iff (lib : SilverLeaves) :
    (∀ w s, (MemoryView lib).openView w = .ok s → ∀ es,
      (Run.Always (MemoryView lib).step
          (fun s => ∀ c rows, s.content (MemoryView lib) = some c →
            memoryMap lib c.text = .ok rows → s.view.viewer.elements = rows) s es ↔
        Run.EachStep (MemoryView lib).step
          (fun s ev => s.RefreshOnly ev → NoRows lib (s.content (MemoryView lib))) s es)) ∧
    ∀ c n, 1 ≤ n →
      (nthElements lib (.new c) n = nthElements lib (.new c) 1 ↔ n = 1 ∨ NoRows lib c) := by
  constructor
  · intro w s hopen es
    obtain ⟨hq, hshows⟩ := queried_showsMemoryMap_openView hopen
    have hiff : Run.Always (MemoryView lib).step (fun s => s.ShowsMemoryMap lib) s es ↔
        s.ShowsMemoryMap lib ∧ Run.EachStep (MemoryView lib).step
          (fun s ev => s.RefreshOnly ev → NoRows lib (s.content (MemoryView lib))) s es := by
      refine Run.always_iff_eachStep (I := fun s => s.Proper ∧ s.Queried lib) ?_ ?_
        ⟨(openView_spec hopen).1, hq⟩
      · intro s ev hs
        exact ⟨hs.1.step ev, hs.2.step hs.1 ev⟩
      · intro s ev hs h
        exact showsMemoryMap_step_iff hs.1 hs.2 h ev
    exact hiff.trans (and_iff_right hshows)
  · intro c n hn
    rw [nthElements_eq_first_iff lib c hn, rowsOfContent_eq_nil_iff]

/-! ### A text with one region -/

section Sample

/-- The text `d{#address-cells = <1>;#size-cells = <1>;reg = <0x10 0x10>;};`. -/
def regionText : Text :=
  [100, 123, 35, 97, 100, 100, 114, 101, 115, 115, 45, 99, 101, 108, 108, 115, 32, 61, 32, 60,
    49, 62, 59, 35, 115, 105, 122, 101, 45, 99, 101, 108, 108, 115, 32, 61, 32, 60, 49, 62, 59,
    114, 101, 103, 32, 61, 32, 60, 48, 120, 49, 48, 32, 48, 120, 49, 48, 62, 59, 125, 59]

/-- The library on `regionText`: one region, from `0x10` to `0x1f`. -/
def regionLibrary : SilverLeaves :=
  { attributeLibrary with
    getDeviceTreeMemoryMapRegRec := fun _ => .ok [⟨"d", "0x10", "0x10"⟩]
    getEndAddress := fun _ => .ok "0x1f" }

/-- A workspace in which every file holds `regionText`. -/
def regionWorld : World :=
  { sampleWorld with contents := fun _ => regionText, buffer := fun _ => regionText }

theorem memoryMap_regionText :
    memoryMap regionLibrary regionText = .ok [⟨"0x10", "d"⟩, ⟨"0x1f", "d"⟩] := rfl

/-- The memory view stays right when an editor on a file of another name is activated,
and the first query of a provider agrees with itself. -/
theorem rows_are_memoryMap_sample :
    (∃ s, (MemoryView regionLibrary).openView regionWorld = .ok s ∧
      Run.Always (MemoryView regionLibrary).step
        (fun s => ∀ c rows, s.content (MemoryView regionLibrary) = some c →
          memoryMap regionLibrary c.text = .ok rows → s.view.viewer.elements = rows) s
        [.activated (.editor editorNotes),
          .activated (.editor editorY)]) ∧
    nthElements attributeLibrary (.new none) 2 = nthElements attributeLibrary (.new none) 1 := by
  refine ⟨⟨_, rfl, ((rows_are_memoryMap_iff regionLibrary).1 regionWorld _ rfl _).mpr
    ⟨?_, ?_, trivial⟩⟩, ((rows_are_memoryMap_iff attributeLibrary).2 none 2 (by decide)).mpr
      (Or.inr ?_)⟩
  · rintro ⟨e, he, hid, -⟩
    cases he
    exact absurd hid (by decide)
  · rintro ⟨e, he, -, hcur⟩
    cases he
    exact absurd hcur.2 (by decide)
  · intro c hc
    cases hc

/-- Activating the editor that is shown blanks the table. -/
theorem rows_are_memoryMap_fails :
    ¬ ∀ (lib : SilverLeaves) (w : World) (s : MemorySession),
      (MemoryView lib).openView w = .ok s → ∀ es,
        Run.Always (MemoryView lib).step
          (fun s => ∀ c rows, s.content (MemoryView lib) = some c →
            memoryMap lib c.text = .ok rows → s.view.viewer.elements = rows) s es := by
  intro h
  have hrun := h regionLibrary regionWorld _ rfl [.activated (.editor editorX)]
  have hrows := hrun.2 _ _ rfl memoryMap_regionText
  cases hrows

end Sample

end SilverTree
