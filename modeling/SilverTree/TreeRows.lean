import SilverTree.Navigation
import SilverTree.ViewHistory

/-!
# The rows of the expanded tree

A tree viewer asks its provider for the elements, and for the children of an element
when it is expanded, provided that `hasChildren` says there are some.  A user who expands
everything sees one row for each object of the parsed tree that is not a comment, in the
order of the text and indented as the nodes are nested, in every state the view reaches.

## Main definitions

* `DeviceTreeLabelProvider.getImage` — the icon of a row.
* `rowsOf` — the rows of an element that is expanded with everything below it.
* `DeviceTreeObject.outline` — the objects of a tree that are not comments, with their depth.

## Main results

* `rowsOf_eq` — trusting `hasChildren` loses no row.
* `tree_rows_of_run` — **the expanded tree is the outline of the parsed tree**, in every
  state of every run.
-/

namespace SilverTree

open DeviceTreeContentProvider

/-! ### Rows -/

/-- The icons of the workbench that the tree uses. -/
inductive ISharedImages
  | IMG_OBJ_ELEMENT
  | IMG_OBJ_FOLDER
  deriving DecidableEq, Repr

/-- `DeviceTreeLabelProvider.getImage(obj)`. -/
def DeviceTreeLabelProvider.getImage (e : TreeElement) : ISharedImages :=
  if e.isDeviceTree then .IMG_OBJ_FOLDER else .IMG_OBJ_ELEMENT

/-- A row of the tree. -/
structure Row where
  depth : ℕ
  image : ISharedImages
  element : TreeElement

theorem sizeOf_lt_of_mem_getChildren {e c : TreeElement} (h : c ∈ getChildren e) :
    sizeOf c.object < sizeOf e.object := by
  obtain ⟨object, parents⟩ := e
  cases object with
  | attr token => cases h
  | tree token children =>
    obtain ⟨o, ho, rfl⟩ := List.mem_map.mp h
    have hmem : o ∈ children := (List.mem_filter.mp ho).1
    have hlt := List.sizeOf_lt_of_mem hmem
    simp only [DeviceTreeObject.tree.sizeOf_spec]
    omega

/-- The rows of an element that is expanded with everything below it. -/
def rowsOf (depth : ℕ) (e : TreeElement) : List Row :=
  ⟨depth, DeviceTreeLabelProvider.getImage e, e⟩ ::
    if hasChildren e then
      (getChildren e).attach.flatMap fun c => rowsOf (depth + 1) c.1
    else []
termination_by sizeOf e.object
decreasing_by exact sizeOf_lt_of_mem_getChildren c.2

/-- **Trusting `hasChildren` loses no row**: an element that says it has no children returns
none. -/
theorem rowsOf_eq (depth : ℕ) (e : TreeElement) :
    rowsOf depth e = ⟨depth, DeviceTreeLabelProvider.getImage e, e⟩ ::
      (getChildren e).flatMap (rowsOf (depth + 1)) := by
  rw [rowsOf]
  congr 1
  split
  · rw [List.flatMap_subtype]
    · rw [List.unattach_attach]
    · intro c hc
      rfl
  · next hno =>
    have hnil : getChildren e = [] := by
      rw [List.eq_nil_iff_forall_not_mem]
      intro c hc
      exact hno (hasChildren_of_mem_getChildren hc)
    rw [hnil]
    rfl

/-! ### The outline of a tree -/

mutual

/-- The objects below an object, itself first, that are not comments. -/
def DeviceTreeObject.outline (depth : ℕ) : DeviceTreeObject → List (ℕ × DeviceTreeObject)
  | .attr token => [(depth, .attr token)]
  | .tree token children => (depth, .tree token children) :: outlineOf (depth + 1) children

/-- The outlines of the children of a tree, one after the other. -/
def DeviceTreeObject.outlineOf (depth : ℕ) : List DeviceTreeObject → List (ℕ × DeviceTreeObject)
  | [] => []
  | o :: os => if o.isVisible then o.outline depth ++ outlineOf depth os else outlineOf depth os

end

/-- What a row says about the tree. -/
def Row.entry (r : Row) : ℕ × DeviceTreeObject := (r.depth, r.element.object)

mutual

/-- The rows of an object are its outline. -/
theorem entries_rowsOf (o : DeviceTreeObject) : ∀ (depth : ℕ) (parents : List DeviceTree),
    (rowsOf depth ⟨o, parents⟩).map Row.entry = o.outline depth := by
  intro depth parents
  cases o with
  | attr token =>
    rw [rowsOf_eq]
    rfl
  | tree token children =>
    rw [rowsOf_eq, List.map_cons, DeviceTreeObject.outline]
    congr 1
    exact entries_rowsOf_children children (depth + 1) (⟨token, children⟩ :: parents)

theorem entries_rowsOf_children (os : List DeviceTreeObject) :
    ∀ (depth : ℕ) (parents : List DeviceTree),
    (((os.filter DeviceTreeObject.isVisible).map fun o => (⟨o, parents⟩ : TreeElement)).flatMap
      (rowsOf depth)).map Row.entry = DeviceTreeObject.outlineOf depth os := by
  intro depth parents
  cases os with
  | nil => rfl
  | cons o os =>
    rw [DeviceTreeObject.outlineOf]
    cases hvisible : o.isVisible with
    | false =>
      rw [List.filter_cons_of_neg (by simp [hvisible])]
      exact entries_rowsOf_children os depth parents
    | true =>
      rw [List.filter_cons_of_pos hvisible, List.map_cons, List.flatMap_cons, List.map_append,
        entries_rowsOf o depth parents, entries_rowsOf_children os depth parents]
      rfl

end

/-! ### The rows and the objects of the tree -/

theorem mem_rowsOf_self (depth : ℕ) (e : TreeElement) :
    ⟨depth, DeviceTreeLabelProvider.getImage e, e⟩ ∈ rowsOf depth e := by
  rw [rowsOf_eq]
  exact List.mem_cons_self

/-- A row is that of the element, or below one of its children. -/
theorem mem_rowsOf_iff {depth : ℕ} {e : TreeElement} {r : Row} :
    r ∈ rowsOf depth e ↔ r = ⟨depth, DeviceTreeLabelProvider.getImage e, e⟩ ∨
      ∃ c ∈ getChildren e, r ∈ rowsOf (depth + 1) c := by
  rw [rowsOf_eq, List.mem_cons, List.mem_flatMap]

theorem shows_of_mem_getChildren {root : DeviceTreeRoot} {e c : TreeElement} (he : root.Shows e)
    (hc : c ∈ getChildren e) : root.Shows c := by
  unfold getChildren at hc
  cases ht : e.object.asDeviceTree with
  | none => simp [ht] at hc
  | some t =>
    rw [ht] at hc
    exact .child he ht hc

theorem length_parents_of_mem_getChildren {e c : TreeElement} (h : c ∈ getChildren e) :
    c.parents.length = e.parents.length + 1 := by
  unfold getChildren at h
  cases ht : e.object.asDeviceTree with
  | none => simp [ht] at h
  | some t =>
    rw [ht] at h
    obtain ⟨o, -, rfl⟩ := List.mem_map.mp h
    rfl

/-- Every row below a shown object is one of a shown object, and indented by the number of
trees above it. -/
theorem shows_of_mem_rowsOf {root : DeviceTreeRoot} (depth : ℕ) (e : TreeElement) :
    root.Shows e → e.parents.length = depth + 1 → ∀ r ∈ rowsOf depth e,
      root.Shows r.element ∧ r.element.parents.length = r.depth + 1 := by
  induction depth, e using rowsOf.induct with
  | case1 depth e ih =>
    intro he hdepth r hr
    rcases mem_rowsOf_iff.mp hr with rfl | ⟨c, hc, hr⟩
    · exact ⟨he, hdepth⟩
    · exact ih ⟨c, hc⟩ (shows_of_mem_getChildren he hc)
        (by rw [length_parents_of_mem_getChildren hc, hdepth]) r hr

/-- With a row come the rows of its children. -/
theorem exists_row_of_mem_getChildren (depth : ℕ) (e : TreeElement) :
    ∀ r ∈ rowsOf depth e, ∀ c ∈ getChildren r.element, ∃ r' ∈ rowsOf depth e, r'.element = c := by
  induction depth, e using rowsOf.induct with
  | case1 depth e ih =>
    intro r hr c hc
    rcases mem_rowsOf_iff.mp hr with rfl | ⟨c', hc', hr⟩
    · exact ⟨_, mem_rowsOf_iff.mpr (Or.inr ⟨c, hc, mem_rowsOf_self (depth + 1) c⟩), rfl⟩
    · obtain ⟨r', hr', hel⟩ := ih ⟨c', hc'⟩ r hr c hc
      exact ⟨r', mem_rowsOf_iff.mpr (Or.inr ⟨c', hc', hr'⟩), hel⟩

/-- Every object that a tree shows has a row. -/
theorem exists_row_of_shows {root : DeviceTreeRoot} {e : TreeElement} (h : root.Shows e) :
    ∃ r ∈ (root.visibleChildren []).flatMap (rowsOf 0), r.element = e := by
  induction h with
  | top he => exact ⟨_, List.mem_flatMap.mpr ⟨_, he, mem_rowsOf_self 0 _⟩, rfl⟩
  | @child e e' t _ ht he' ih =>
    obtain ⟨r, hr, rfl⟩ := ih
    obtain ⟨top, htop, hr⟩ := List.mem_flatMap.mp hr
    have hchild : e' ∈ getChildren r.element := by
      rw [getChildren, ht]
      exact he'
    obtain ⟨r', hr', hel⟩ := exists_row_of_mem_getChildren 0 top r hr e' hchild
    exact ⟨r', List.mem_flatMap.mpr ⟨top, htop, hr'⟩, hel⟩

/-- **The expanded tree is the outline of the parsed tree**, in every state of every run:
when the saved text of the file that the view follows parses, there is one row for each
object that is not a comment, in the order of the tree and indented by its depth. -/
theorem tree_rows_of_run (lib : SilverLeaves) {w : World} {s : TreeSession}
    (hopen : (DeviceTreeView lib).openView w = .ok s) (es : List Event) {e : IEditorPart}
    {F : IFile} {root : DeviceTreeRoot}
    (hsource : (es.foldl (Following.step true) (.opened w)).source = some e)
    (hfile : e.getFile = some F)
    (hparse : lib.create ((es.foldl World.apply w).contents F) = .ok root) :
    ((es.foldl (DeviceTreeView lib).step s).view.viewer.elements.flatMap (rowsOf 0)).map Row.entry
        = DeviceTreeObject.outlineOf 0 root.children ∧
      (∀ o, root.Shows o ↔
        ∃ r ∈ (es.foldl (DeviceTreeView lib).step s).view.viewer.elements.flatMap (rowsOf 0),
          r.element = o) ∧
      ∀ r ∈ (es.foldl (DeviceTreeView lib).step s).view.viewer.elements.flatMap (rowsOf 0),
        r.element.parents.length = r.depth + 1 := by
  have helements : (es.foldl (DeviceTreeView lib).step s).view.viewer.elements
      = root.visibleChildren [] := by
    rw [(sound_foldl lib hopen es).displays.elements_eq, tree_content_foldl lib hopen, hsource,
      Option.bind_some, World.contentOf_of_getFile _ hfile]
    simp only [elementsOfContent, elementsOf, hparse]
  rw [helements]
  have hrows : ∀ r ∈ (root.visibleChildren []).flatMap (rowsOf 0),
      root.Shows r.element ∧ r.element.parents.length = r.depth + 1 := by
    intro r hr
    obtain ⟨top, htop, hr⟩ := List.mem_flatMap.mp hr
    obtain ⟨o, -, rfl⟩ := List.mem_map.mp htop
    exact shows_of_mem_rowsOf 0 ⟨o, [root]⟩ (.top htop) rfl r hr
  refine ⟨entries_rowsOf_children root.children 0 [root], ?_, fun r hr => (hrows r hr).2⟩
  intro o
  constructor
  · exact exists_row_of_shows
  · rintro ⟨r, hr, rfl⟩
    exact (hrows r hr).1

/-- The rows of `/{a;};`: the node, and below it its attribute. -/
theorem tree_rows_of_run_node :
    ∃ s, (DeviceTreeView nodeLibrary).openView sampleWorld = .ok s ∧
      (([Event.resource (.postChange [(fileX, nodeRoot.token.text)])].foldl
        (DeviceTreeView nodeLibrary).step s).view.viewer.elements.flatMap (rowsOf 0)).map Row.entry
        = [(0, nodeElement.object), (1, leafElement.object)] := by
  have hopen : (DeviceTreeView nodeLibrary).openView sampleWorld = .ok _ := rfl
  have hsource : ([Event.resource (.postChange [(fileX, nodeRoot.token.text)])].foldl
      (Following.step true) (.opened sampleWorld)).source = some editorX := rfl
  exact ⟨_, hopen, (tree_rows_of_run nodeLibrary hopen _ hsource rfl rfl).1⟩

end SilverTree
