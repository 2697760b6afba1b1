import SilverTree.Workbench
import Mathlib.Algebra.Order.Group.Int

/-!
# What the plug-in uses of silver-leaves

The device tree parser is the library `silver-leaves`, shipped as a jar.  The
plug-in sees the objects of a parsed tree, their parents, tokens and offsets, and
the memory regions the library extracts.  The objects are modelled as data; the
parser and the extraction of regions are parameters, functions of the text, which
may throw.

Objects of a parsed tree point to their parents.  A reference to an object is
modelled as the object together with the chain of trees above it, so that the
parent of every child a tree returns is that tree, by construction.

## Main definitions

* `DeviceTreeObject`, `DeviceTree` — the objects of a parsed tree.
* `TreeElement` — a reference to such an object, with `getChildren`, `getParent`
  and `getOffsetInEditor`.
* `MemoryMapReg` — a memory region.
* `SilverLeaves` — the library.
-/

namespace SilverTree

/-! ### Tokens and trees -/

/-- The types of tokens. -/
inductive TokenType
  | NONE
  | TREE
  | ATTRIBUTE
  | INCLUDE
  | COMMENT
  | DEFINE
  deriving DecidableEq, Repr

/-- A token: a range of the text of the tree it is a part of. -/
structure Token where
  /-- Its type. -/
  type : TokenType
  /-- Where it starts in the text of the parent's token. -/
  fromOffset : ℕ
  /-- The text in the range, `toString()`. -/
  text : Text
  deriving DecidableEq, Repr

/-- A `DeviceTreeObject` of a parsed tree. -/
inductive DeviceTreeObject
  /-- A `DeviceTreeAttribute`: an object that is not a `DeviceTree`. -/
  | attr (token : Token)
  /-- A `DeviceTree` with its children. -/
  | tree (token : Token) (children : List DeviceTreeObject)

/-- A `DeviceTree`; a `DeviceTreeRoot` is one without a parent. -/
structure DeviceTree where
  /-- The token of the tree. -/
  token : Token
  /-- All its children, the invisible ones included. -/
  children : List DeviceTreeObject

/-- The root of a parsed tree. -/
abbrev DeviceTreeRoot := DeviceTree

/-- A tree as an object. -/
def DeviceTree.toObject (t : DeviceTree) : DeviceTreeObject := .tree t.token t.children

/-- `instanceof DeviceTree` together with the cast. -/
def DeviceTreeObject.asDeviceTree : DeviceTreeObject → Option DeviceTree
  | .attr _ => none
  | .tree token children => some ⟨token, children⟩

/-- `getToken()`. -/
def DeviceTreeObject.token : DeviceTreeObject → Token
  | .attr token => token
  | .tree token _ => token

/-- Comments are kept in the tree but not shown. -/
def DeviceTreeObject.isVisible : DeviceTreeObject → Bool
  | .attr token => token.type != .COMMENT
  | .tree _ _ => true

@[simp] theorem DeviceTree.asDeviceTree_toObject (t : DeviceTree) :
    t.toObject.asDeviceTree = some t := rfl

theorem DeviceTreeObject.eq_toObject_of_asDeviceTree {o : DeviceTreeObject} {t : DeviceTree}
    (h : o.asDeviceTree = some t) : o = t.toObject := by
  cases o with
  | attr token => cases h
  | tree token children => cases h; rfl

/-! ### References to objects -/

/-- A reference to an object of a parsed tree: the object, and the trees above it
from its parent up to the root. -/
structure TreeElement where
  /-- The object. -/
  object : DeviceTreeObject
  /-- Its parent, the parent of that, and so on. -/
  parents : List DeviceTree

/-- The reference to the root of a tree. -/
def DeviceTree.element (root : DeviceTreeRoot) : TreeElement := ⟨root.toObject, []⟩

/-- `obj instanceof DeviceTree`. -/
def TreeElement.isDeviceTree (e : TreeElement) : Bool := e.object.asDeviceTree.isSome

/-- `DeviceTreeObject.getParent()`: null at the root. -/
def TreeElement.parent (e : TreeElement) : Option TreeElement :=
  match e.parents with
  | [] => none
  | t :: ts => some ⟨t.toObject, ts⟩

/-- `DeviceTree.getChildren(true)`: references to the visible children. -/
def DeviceTree.visibleChildren (t : DeviceTree) (parents : List DeviceTree) : List TreeElement :=
  (t.children.filter DeviceTreeObject.isVisible).map fun o => ⟨o, t :: parents⟩

/-- `getOffsetInEditor()`: the offsets of the tokens from the object up to the root
add up. -/
def TreeElement.getOffsetInEditor (e : TreeElement) : ℕ :=
  e.parents.foldl (fun offset t => offset + t.token.fromOffset) e.object.token.fromOffset

/-- A child a tree returns has that tree as its parent. -/
theorem parent_of_mem_visibleChildren {t : DeviceTree} {ts : List DeviceTree} {e : TreeElement}
    (h : e ∈ t.visibleChildren ts) : e.parent = some ⟨t.toObject, ts⟩ := by
  obtain ⟨o, -, rfl⟩ := List.mem_map.mp h
  rfl

/-! ### Memory regions and the library -/

/-- A memory region. -/
structure MemoryMapReg where
  /-- The name of the node it belongs to. -/
  name : String
  /-- Its start address. -/
  address : String
  /-- Its length. -/
  length : String
  deriving DecidableEq, Repr

/-- A `DeviceTreeMemory`: the tree it was built from, null if that did not parse. -/
structure DeviceTreeMemory where
  /-- The tree. -/
  root : Option DeviceTreeRoot

/-- The functions of the library that the plug-in calls, on a token that spans a
whole text. -/
structure SilverLeaves where
  /-- `DeviceTreeRoot.create`. -/
  create : Text → Except JavaException DeviceTreeRoot
  /-- `new DeviceTreeMemory`. -/
  newDeviceTreeMemory : Text → Except JavaException DeviceTreeMemory
  /-- `DeviceTreeMemory.getDeviceTreeMemoryMapRegRec`. -/
  getDeviceTreeMemoryMapRegRec : DeviceTreeMemory → Except JavaException (List MemoryMapReg)
  /-- `MemoryMapReg.get_end_address`: throws when the address or the length is not a
  number. -/
  getEndAddress : MemoryMapReg → Except JavaException String
  /-- `MemoryMapReg.compareTo`: throws when one of the addresses is not a number. -/
  compareTo : MemoryMapReg → MemoryMapReg → Except JavaException ℤ

namespace SilverLeaves

variable (lib : SilverLeaves)

/-- Any two of the regions can be compared. -/
def MutuallyComparable (regs : List MemoryMapReg) : Prop :=
  ∀ a ∈ regs, ∀ b ∈ regs, ∃ n, lib.compareTo a b = .ok n

/-- Every region has an end address. -/
def HaveEndAddresses (regs : List MemoryMapReg) : Prop :=
  ∀ r ∈ regs, ∃ a, lib.getEndAddress r = .ok a

/-- On these regions `compareTo` is a total preorder that does not throw: the sign of a
comparison changes with the order of its arguments, and comparisons compose. -/
structure TotalPreorderOn (regs : List MemoryMapReg) : Prop where
  /-- No comparison throws. -/
  comparable : lib.MutuallyComparable regs
  /-- Swapping the arguments swaps the sign. -/
  neg_iff : ∀ a ∈ regs, ∀ b ∈ regs, ∀ m n, lib.compareTo a b = .ok m →
    lib.compareTo b a = .ok n → (m < 0 ↔ 0 < n)
  /-- Transitivity. -/
  trans : ∀ a ∈ regs, ∀ b ∈ regs, ∀ c ∈ regs, ∀ l m n, lib.compareTo a b = .ok l →
    lib.compareTo b c = .ok m → lib.compareTo a c = .ok n → l ≤ 0 → m ≤ 0 → n ≤ 0

end SilverLeaves

/-- The text in a range of a text. -/
def slice (text : Text) (offset length : ℕ) : Text := (text.drop offset).take length

/-- An object somewhere in a tree, as a reference: a descendant of the root along
visible children. -/
inductive DeviceTree.Shows (root : DeviceTreeRoot) : TreeElement → Prop
  | top {e : TreeElement} : e ∈ root.visibleChildren [] → root.Shows e
  | child {e e' : TreeElement} {t : DeviceTree} : root.Shows e →
      e.object.asDeviceTree = some t → e' ∈ t.visibleChildren e.parents → root.Shows e'

/-- The offset of every object is where its token occurs in the parsed text. -/
def SilverLeaves.OffsetsFaithful (lib : SilverLeaves) : Prop :=
  ∀ text root, lib.create text = .ok root → ∀ e, root.Shows e →
    slice text e.getOffsetInEditor e.object.token.text.length = e.object.token.text

/-- The library on the text of one attribute, such as `a;`: a root with that
attribute, and no memory regions. -/
def attributeLibrary : SilverLeaves where
  create text := .ok ⟨⟨.TREE, 0, text⟩, [.attr ⟨.ATTRIBUTE, 0, text⟩]⟩
  newDeviceTreeMemory text := .ok ⟨some ⟨⟨.TREE, 0, text⟩, [.attr ⟨.ATTRIBUTE, 0, text⟩]⟩⟩
  getDeviceTreeMemoryMapRegRec _ := .ok []
  getEndAddress r := .ok r.address
  compareTo _ _ := .ok 0

end SilverTree
