import SilverTree.Leaves
import SilverTree.Viewer

/-!
# The content provider of the tree

`DeviceTreeContentProvider` parses its content string on the first query and keeps
the root; the elements are the visible children of the root.  Once it has parsed,
`getParent` and `getChildren` navigate the tree.

## Main definitions

* `DeviceTreeContentProvider` with `getElements`, `getParent`, `getChildren`,
  `hasChildren`.
* `elementsOf lib text` — the children of the tree the library yields on a text, no
  elements when it throws: what the provider is for.

## Main results

* `getElements_eq_elementsOf` — **every query of a provider shows the tree of its
  content string**, however often it is queried.
* `getParent_reaches_root_iff` — **`getParent` inverts `getChildren` exactly on the
  elements that are trees.**
-/

namespace SilverTree

/-- The provider: the content string, and the root once it has been parsed. -/
structure DeviceTreeContentProvider where
  invisibleRoot : Option DeviceTreeRoot
  content : Option Content

namespace DeviceTreeContentProvider

/-- The constructor. -/
def new (content : Option Content) : DeviceTreeContentProvider := ⟨none, content⟩

/-- `getChildren(parent)`: nothing unless the parent is a `DeviceTree`. -/
def getChildren (parent : TreeElement) : List TreeElement :=
  match parent.object.asDeviceTree with
  | some t => t.visibleChildren parent.parents
  | none => []

/-- `getChildren(invisibleRoot)`, where the root may be null. -/
def getRootChildren (root : Option DeviceTreeRoot) : List TreeElement :=
  match root with
  | some r => getChildren r.element
  | none => []

/-- `getParent(child)`. -/
def getParent (child : TreeElement) : Option TreeElement :=
  if child.isDeviceTree then child.parent else none

/-- `hasChildren(parent)`: of a tree, whether it has children at all, visible or not. -/
def hasChildren (parent : TreeElement) : Bool :=
  match parent.object.asDeviceTree with
  | some t => !t.children.isEmpty
  | none => false

variable (lib : SilverLeaves)

/-- The provider after the parse that `getElements` may start: an exception is
printed and leaves the root null. -/
def parse (p : DeviceTreeContentProvider) : DeviceTreeContentProvider :=
  match p.invisibleRoot, p.content with
  | none, some c =>
    match lib.create c.text with
    | .ok root => { p with invisibleRoot := some root }
    | .error _ => p
  | _, _ => p

/-- `getElements(parent)`. -/
def getElements (p : DeviceTreeContentProvider) : List TreeElement × DeviceTreeContentProvider :=
  (getRootChildren (p.parse lib).invisibleRoot, p.parse lib)

theorem parse_content (p : DeviceTreeContentProvider) : (p.parse lib).content = p.content := by
  unfold parse
  split
  · split <;> rfl
  · rfl

/-- The provider as a class of content providers. -/
def providerClass : ProviderClass DeviceTreeContentProvider TreeElement where
  new := new
  getElements := getElements lib
  content := content
  content_new _ := rfl
  content_getElements := parse_content lib

end DeviceTreeContentProvider

/-! ### What a query shows -/

section Query

variable (lib : SilverLeaves)

/-- The elements of a text: the children of the tree that `DeviceTreeRoot.create`
yields on it, and no elements when the parse throws. -/
def elementsOf (text : Text) : List TreeElement :=
  match lib.create text with
  | .ok root => root.visibleChildren []
  | .error _ => []

/-- The elements of a content string that may be null. -/
def elementsOfContent (c : Option Content) : List TreeElement :=
  match c with
  | some c => elementsOf lib c.text
  | none => []

open DeviceTreeContentProvider

/-- The root a provider holds is what the library yields on its content string. -/
def DeviceTreeContentProvider.Faithful (p : DeviceTreeContentProvider) : Prop :=
  ∀ root, p.invisibleRoot = some root → ∃ c, p.content = some c ∧ lib.create c.text = .ok root

theorem DeviceTreeContentProvider.faithful_new (c : Option Content) : (new c).Faithful lib := by
  intro root h
  cases h

variable {lib}

theorem DeviceTreeContentProvider.Faithful.parse {p : DeviceTreeContentProvider}
    (h : p.Faithful lib) : (p.parse lib).Faithful lib := by
  intro root hroot
  rw [parse_content]
  unfold DeviceTreeContentProvider.parse at hroot
  split at hroot
  · next c _ hc =>
    split at hroot
    · next r hr =>
      cases hroot
      exact ⟨c, hc, hr⟩
    · exact h root hroot
  · exact h root hroot

/-- **Every query shows the tree of the content string.**  The cached root makes no
difference. -/
theorem getElements_eq_elementsOf {p : DeviceTreeContentProvider} (h : p.Faithful lib) :
    (p.getElements lib).1 = elementsOfContent lib p.content := by
  obtain ⟨root, content⟩ := p
  cases root with
  | some r =>
    -- the root is cached: it came from the same text
    obtain ⟨c, hc, hr⟩ := h r rfl
    cases hc
    simp [getElements, parse, getRootChildren, getChildren, DeviceTree.element,
      elementsOfContent, elementsOf, hr]
  | none =>
    cases content with
    | none => rfl
    | some c =>
      cases hr : lib.create c.text with
      | ok r =>
        simp [getElements, parse, getRootChildren, getChildren, DeviceTree.element,
          elementsOfContent, elementsOf, hr]
      | error e =>
        simp [getElements, parse, getRootChildren, elementsOfContent, elementsOf, hr]

end Query

/-! ### Parents

JFace walks from an element to the root by `getParent` when it reveals, selects or
drills down, so `getParent` should undo `getElements` and `getChildren`. -/

section Parents

open DeviceTreeContentProvider

variable (lib : SilverLeaves)

/-- `Returned lib p q e`: the provider returned `e` as a child of `q`, by
`getElements` for the invisible root `q` and by `getChildren(q)` for an element `q`
returned before. -/
inductive Returned (p : DeviceTreeContentProvider) : TreeElement → TreeElement → Prop
  | top {root : DeviceTreeRoot} {e : TreeElement} :
      (p.parse lib).invisibleRoot = some root → e ∈ (p.getElements lib).1 →
      Returned p root.element e
  | child {q e e' : TreeElement} : Returned p q e → e' ∈ getChildren e → Returned p e e'

/-- `getParent`, iterated from an element. -/
def ancestor (n : ℕ) (e : TreeElement) : Option TreeElement :=
  (fun o : Option TreeElement => o.bind getParent)^[n] (some e)

variable {lib}

theorem ancestor_succ {e q : TreeElement} (h : getParent e = some q) (n : ℕ) :
    ancestor (n + 1) e = ancestor n q := by
  unfold ancestor
  rw [Function.iterate_succ_apply, Option.bind_some, h]

/-- Only trees have children, and the parent of a child is the tree. -/
theorem parent_of_mem_getChildren {q e : TreeElement} (h : e ∈ getChildren q) :
    q.isDeviceTree = true ∧ e.parent = some q := by
  unfold getChildren at h
  cases hq : q.object.asDeviceTree with
  | none => rw [hq] at h; simp at h
  | some t =>
    rw [hq] at h
    refine ⟨by simp [TreeElement.isDeviceTree, hq], ?_⟩
    rw [parent_of_mem_visibleChildren h, ← DeviceTreeObject.eq_toObject_of_asDeviceTree hq]

/-- An element that returns children says that it has some. -/
theorem hasChildren_of_mem_getChildren {q e : TreeElement} (h : e ∈ getChildren q) :
    hasChildren q = true := by
  unfold getChildren at h
  unfold hasChildren
  cases hq : q.object.asDeviceTree with
  | none => rw [hq] at h; simp at h
  | some t =>
    rw [hq] at h
    obtain ⟨o, ho, -⟩ := List.mem_map.mp h
    have hmem : o ∈ t.children := (List.mem_filter.mp ho).1
    cases hchildren : t.children with
    | nil => rw [hchildren] at hmem; cases hmem
    | cons c cs => simp [hchildren]

theorem Returned.parent {p : DeviceTreeContentProvider} {q e : TreeElement}
    (h : Returned lib p q e) : q.isDeviceTree = true ∧ e.parent = some q := by
  cases h with
  | top hroot he =>
    rw [getElements, hroot] at he
    exact parent_of_mem_getChildren he
  | child _ he => exact parent_of_mem_getChildren he

theorem getParent_of_isDeviceTree {e : TreeElement} (h : e.isDeviceTree = true) :
    getParent e = e.parent := by simp [getParent, h]

/-- From the parent of a returned element, `getParent` leads to the root: every
element on the way has children, so it is a tree. -/
theorem Returned.ancestor_eq_root {c : Content} {root : DeviceTreeRoot}
    (hparse : lib.create c.text = .ok root) {q e : TreeElement}
    (h : Returned lib (new (some c)) q e) : ∃ n, ancestor n q = some root.element := by
  induction h with
  | top hroot _ =>
    simp only [parse, new, hparse, Option.some.injEq] at hroot
    subst hroot
    exact ⟨0, rfl⟩
  | child hq he ih =>
    obtain ⟨n, hn⟩ := ih
    have htree := (parent_of_mem_getChildren he).1
    refine ⟨n + 1, ?_⟩
    rw [ancestor_succ ((getParent_of_isDeviceTree htree).trans hq.parent.2), hn]

/-- **`getParent` undoes `getChildren` exactly on trees.**  On the leaves, which are
objects but no trees, it answers null. -/
theorem getParent_reaches_root_iff (lib : SilverLeaves) {c : Content} {root : DeviceTreeRoot}
    (hparse : lib.create c.text = .ok root) {q e : TreeElement}
    (h : Returned lib (new (some c)) q e) :
    (getParent e = some q ∧ ∃ n, ancestor n e = some root.element) ↔ e.isDeviceTree = true := by
  constructor
  · rintro ⟨hpar, -⟩
    by_contra hleaf
    simp [getParent, hleaf] at hpar
  · intro htree
    have hpar : getParent e = some q := (getParent_of_isDeviceTree htree).trans h.parent.2
    obtain ⟨n, hn⟩ := h.ancestor_eq_root hparse
    exact ⟨hpar, n + 1, by rw [ancestor_succ hpar, hn]⟩

/-- The tree of `/{a;};`: a node with one attribute. -/
def nodeRoot : DeviceTreeRoot :=
  ⟨⟨.TREE, 0, [47, 123, 97, 59, 125, 59]⟩,
    [.tree ⟨.TREE, 2, [97, 59]⟩ [.attr ⟨.ATTRIBUTE, 0, [97, 59]⟩]]⟩

/-- The library on the text `/{a;};`. -/
def nodeLibrary : SilverLeaves := { attributeLibrary with create := fun _ => .ok nodeRoot }

/-- The content `/{a;};` of a file. -/
def nodeContent : Content := contentOn ⟨"/p", "x.dts"⟩ nodeRoot.token.text

/-- The node of `nodeRoot`, and the attribute in it. -/
def nodeElement : TreeElement := ⟨.tree ⟨.TREE, 2, [97, 59]⟩ [.attr ⟨.ATTRIBUTE, 0, [97, 59]⟩],
  [nodeRoot]⟩

/-- The attribute of `nodeElement`. -/
def leafElement : TreeElement :=
  ⟨.attr ⟨.ATTRIBUTE, 0, [97, 59]⟩,
    [⟨⟨.TREE, 2, [97, 59]⟩, [.attr ⟨.ATTRIBUTE, 0, [97, 59]⟩]⟩, nodeRoot]⟩

theorem returned_nodeElement : Returned nodeLibrary (new (some nodeContent)) nodeRoot.element
    nodeElement := by
  refine Returned.top rfl ?_
  exact List.mem_singleton.mpr rfl

theorem returned_leafElement : Returned nodeLibrary (new (some nodeContent)) nodeElement
    leafElement := by
  refine Returned.child returned_nodeElement ?_
  exact List.mem_singleton.mpr rfl

/-- The node of `/{a;};` leads back to the root. -/
theorem getParent_nodeElement : nodeElement.isDeviceTree = true ∧
    getParent nodeElement = some nodeRoot.element ∧
      ∃ n, ancestor n nodeElement = some nodeRoot.element :=
  ⟨rfl, (getParent_reaches_root_iff nodeLibrary (c := nodeContent) rfl
    returned_nodeElement).mpr rfl⟩

/-- The attribute in the node of `/{a;};` was returned for the node, and its parent
is null. -/
theorem getParent_leafElement_ne :
    ¬ ∀ (lib : SilverLeaves) (c : Content) (root : DeviceTreeRoot), lib.create c.text = .ok root →
      ∀ q e, Returned lib (new (some c)) q e →
        getParent e = some q ∧ ∃ n, ancestor n e = some root.element := by
  intro h
  have hleaf := (h nodeLibrary nodeContent nodeRoot rfl nodeElement leafElement
    returned_leafElement).1
  cases hleaf

end Parents

end SilverTree
