import SilverTree.Partitions

/-!
# The colours of the editor

A device tree editor has a colour manager, which creates a colour of the display when it
is first asked for, and a configuration, which builds the scanners and the presentation
reconciler of the source viewer out of these colours.  When the editor is disposed, so
are the colours in the table of its manager.  The table is not cleared then.

The platform asks a configuration for a reconciler whenever it configures a source viewer,
any number of times.

## Main definitions

* `Display`, `Color` — the colours of the display; `ColorManager` — the table.
* `XMLConfiguration` with `getXMLScanner`, `getXMLTagScanner`, `getPresentationReconciler`.
* `reconcilerFrom`, `configuredFrom` — the reconciler and the configuration of an editor
  that owns five given colours.

## Main results

* `getPresentationReconciler_fresh` — **the first reconciler** comes with five new colours.
* `getPresentationReconciler_configured` — **all others** are made of the same ones.
-/

namespace SilverTree

/-! ### Colours -/

/-- `RGB`. -/
structure RGB where
  red : ℕ
  green : ℕ
  blue : ℕ
  deriving DecidableEq, Repr

namespace IXMLColorConstants

def XML_COMMENT : RGB := ⟨128, 0, 0⟩

def PROC_INSTR : RGB := ⟨128, 128, 128⟩

def STRING : RGB := ⟨0, 128, 0⟩

def DEFAULT : RGB := ⟨0, 0, 0⟩

def TAG : RGB := ⟨0, 0, 128⟩

end IXMLColorConstants

/-- A `Color` object: the number of colours created before it, and its value. -/
structure Color where
  number : ℕ
  rgb : RGB
  deriving DecidableEq, Repr

/-- The colours of the display: all that were created, and those that were disposed. -/
structure Display where
  created : List Color
  disposed : List Color

/-- `new Color(display, rgb)`. -/
def Display.newColor (d : Display) (rgb : RGB) : Color × Display :=
  let color : Color := ⟨d.created.length, rgb⟩
  (color, { d with created := d.created ++ [color] })

/-- `Color.dispose`; disposing a colour twice makes no difference. -/
def Display.dispose (d : Display) (color : Color) : Display :=
  { d with disposed := color :: d.disposed }

/-- `ColorManager`. -/
structure ColorManager where
  fColorTable : List (RGB × Color)
  deriving DecidableEq

/-- `new ColorManager()`. -/
def ColorManager.new : ColorManager := ⟨[]⟩

/-- `ColorManager.getColor`. -/
def ColorManager.getColor (manager : ColorManager) (rgb : RGB) (d : Display) :
    Color × ColorManager × Display :=
  match manager.fColorTable.lookup rgb with
  | some color => (color, manager, d)
  | none =>
    let (color, d) := d.newColor rgb
    (color, ⟨manager.fColorTable ++ [(rgb, color)]⟩, d)

/-- `ColorManager.dispose`: the table keeps its entries. -/
def ColorManager.dispose (manager : ColorManager) (d : Display) : Display :=
  manager.fColorTable.foldl (fun d entry => d.dispose entry.2) d

/-! ### The configuration -/

/-- `TextAttribute`, of which the editor sets the foreground only. -/
structure TextAttribute where
  foreground : Color
  deriving DecidableEq

/-- The rules of the scanners. -/
inductive IRule
  /-- `SingleLineRule`; without an escape character, `none`. -/
  | singleLine (startSequence endSequence : String) (token : TextAttribute) (escape : Option Char)
  /-- `WhitespaceRule` with an `XMLWhitespaceDetector`. -/
  | whitespace
  deriving DecidableEq

/-- A `RuleBasedScanner`: `XMLScanner` and `XMLTagScanner` are made of rules, and get a
default token. -/
structure RuleBasedScanner where
  rules : List IRule
  defaultReturnToken : Option TextAttribute
  deriving DecidableEq

/-- `setDefaultReturnToken`. -/
def RuleBasedScanner.setDefaultReturnToken (scanner : RuleBasedScanner) (token : TextAttribute) :
    RuleBasedScanner :=
  { scanner with defaultReturnToken := some token }

/-- A damager and repairer of a content type. -/
inductive DamagerRepairer
  /-- `DefaultDamagerRepairer`. -/
  | scanning (scanner : RuleBasedScanner)
  /-- `NonRuleBasedDamagerRepairer`. -/
  | nonRuleBased (defaultTextAttribute : TextAttribute)
  deriving DecidableEq

/-- The content type of what is in no partition. -/
def IDocument.DEFAULT_CONTENT_TYPE : String := "__dftl_partition_content_type"

def XMLPartitionScanner.XML_COMMENT : String := "__xml_comment"

def XMLPartitionScanner.XML_TAG : String := "__xml_tag"

/-- `PresentationReconciler`: the damagers and repairers by content type. -/
structure PresentationReconciler where
  damagers : List (String × DamagerRepairer)
  repairers : List (String × DamagerRepairer)
  deriving DecidableEq

/-- `setDamager` and `setRepairer`. -/
def PresentationReconciler.set (reconciler : PresentationReconciler) (dr : DamagerRepairer)
    (contentType : String) : PresentationReconciler :=
  ⟨reconciler.damagers ++ [(contentType, dr)], reconciler.repairers ++ [(contentType, dr)]⟩

/-- `XMLConfiguration`.  The strategy has no fields of its own that matter here. -/
structure XMLConfiguration where
  doubleClickStrategy : Bool
  tagScanner : Option RuleBasedScanner
  scanner : Option RuleBasedScanner
  colorManager : ColorManager
  deriving DecidableEq

/-- Code of a configuration: it changes its own fields and the display. -/
abbrev ConfigurationM := StateM (XMLConfiguration × Display)

namespace XMLConfiguration

@[simp] theorem pure_run {α : Type} (a : α) (s : XMLConfiguration × Display) :
    (pure a : ConfigurationM α) s = (a, s) := rfl

@[simp] theorem bind_run {α β : Type} (x : ConfigurationM α) (next : α → ConfigurationM β)
    (s : XMLConfiguration × Display) : (x >>= next) s = next (x s).1 (x s).2 := rfl

@[simp] theorem get_run (s : XMLConfiguration × Display) :
    (get : ConfigurationM (XMLConfiguration × Display)) s = (s, s) := rfl

@[simp] theorem modify_run (f : XMLConfiguration × Display → XMLConfiguration × Display)
    (s : XMLConfiguration × Display) : (modify f : ConfigurationM Unit) s = ((), f s) := rfl

/-- `new XMLConfiguration(colorManager)`. -/
def new (colorManager : ColorManager) : XMLConfiguration := ⟨false, none, none, colorManager⟩

/-- `colorManager.getColor`. -/
def getColor (rgb : RGB) : ConfigurationM Color := fun (c, d) =>
  let (color, manager, d) := c.colorManager.getColor rgb d
  (color, { c with colorManager := manager }, d)

/-- `getConfiguredContentTypes`. -/
def getConfiguredContentTypes : List String :=
  [IDocument.DEFAULT_CONTENT_TYPE, XMLPartitionScanner.XML_COMMENT, XMLPartitionScanner.XML_TAG]

/-- `getDoubleClickStrategy`. -/
def getDoubleClickStrategy : ConfigurationM Unit :=
  modify fun (c, d) => ({ c with doubleClickStrategy := true }, d)

/-- `new XMLScanner(manager)`. -/
def newXMLScanner : ConfigurationM RuleBasedScanner := do
  let procInstr := TextAttribute.mk (← getColor IXMLColorConstants.PROC_INSTR)
  return ⟨[.singleLine "<?" "?>" procInstr none, .whitespace], none⟩

/-- `new XMLTagScanner(manager)`. -/
def newXMLTagScanner : ConfigurationM RuleBasedScanner := do
  let string := TextAttribute.mk (← getColor IXMLColorConstants.STRING)
  return ⟨[.singleLine "\"" "\"" string (some '\\'), .singleLine "'" "'" string (some '\\'),
    .whitespace], none⟩

/-- `getXMLScanner`. -/
def getXMLScanner : ConfigurationM RuleBasedScanner := do
  match (← get).1.scanner with
  | some scanner => return scanner
  | none =>
    let scanner ← newXMLScanner
    let scanner := scanner.setDefaultReturnToken ⟨← getColor IXMLColorConstants.DEFAULT⟩
    modify fun (c, d) => ({ c with scanner := some scanner }, d)
    return scanner

/-- `getXMLTagScanner`. -/
def getXMLTagScanner : ConfigurationM RuleBasedScanner := do
  match (← get).1.tagScanner with
  | some tagScanner => return tagScanner
  | none =>
    let tagScanner ← newXMLTagScanner
    let tagScanner := tagScanner.setDefaultReturnToken ⟨← getColor IXMLColorConstants.TAG⟩
    modify fun (c, d) => ({ c with tagScanner := some tagScanner }, d)
    return tagScanner

/-- `getPresentationReconciler`. -/
def getPresentationReconciler : ConfigurationM PresentationReconciler := do
  let reconciler : PresentationReconciler := ⟨[], []⟩
  let dr := DamagerRepairer.scanning (← getXMLTagScanner)
  let reconciler := reconciler.set dr XMLPartitionScanner.XML_TAG
  let dr := DamagerRepairer.scanning (← getXMLScanner)
  let reconciler := reconciler.set dr IDocument.DEFAULT_CONTENT_TYPE
  let ndr := DamagerRepairer.nonRuleBased ⟨← getColor IXMLColorConstants.XML_COMMENT⟩
  return reconciler.set ndr XMLPartitionScanner.XML_COMMENT

end XMLConfiguration

/-! ### What the configuration does -/

/-- The colours of an editor, when `n` colours were created before them. -/
def colorsFrom (n : ℕ) : List Color :=
  [⟨n, IXMLColorConstants.STRING⟩, ⟨n + 1, IXMLColorConstants.TAG⟩,
    ⟨n + 2, IXMLColorConstants.PROC_INSTR⟩, ⟨n + 3, IXMLColorConstants.DEFAULT⟩,
    ⟨n + 4, IXMLColorConstants.XML_COMMENT⟩]

/-- The scanner of a tag, with its colours. -/
def tagScannerWith (string tag : Color) : RuleBasedScanner :=
  ⟨[.singleLine "\"" "\"" ⟨string⟩ (some '\\'), .singleLine "'" "'" ⟨string⟩ (some '\\'),
    .whitespace], some ⟨tag⟩⟩

/-- The scanner of the rest, with its colours. -/
def scannerWith (procInstr default : Color) : RuleBasedScanner :=
  ⟨[.singleLine "<?" "?>" ⟨procInstr⟩ none, .whitespace], some ⟨default⟩⟩

/-- The configuration of an editor that owns the colours from `n` on. -/
def configuredFrom (n : ℕ) (doubleClickStrategy : Bool) : XMLConfiguration where
  doubleClickStrategy := doubleClickStrategy
  tagScanner := some
    (tagScannerWith ⟨n, IXMLColorConstants.STRING⟩ ⟨n + 1, IXMLColorConstants.TAG⟩)
  scanner := some
    (scannerWith ⟨n + 2, IXMLColorConstants.PROC_INSTR⟩ ⟨n + 3, IXMLColorConstants.DEFAULT⟩)
  colorManager := ⟨(colorsFrom n).map fun c => (c.rgb, c)⟩

/-- Its reconciler. -/
def reconcilerFrom (n : ℕ) : PresentationReconciler :=
  let entries := [
    (XMLPartitionScanner.XML_TAG, DamagerRepairer.scanning
      (tagScannerWith ⟨n, IXMLColorConstants.STRING⟩ ⟨n + 1, IXMLColorConstants.TAG⟩)),
    (IDocument.DEFAULT_CONTENT_TYPE, DamagerRepairer.scanning
      (scannerWith ⟨n + 2, IXMLColorConstants.PROC_INSTR⟩ ⟨n + 3, IXMLColorConstants.DEFAULT⟩)),
    (XMLPartitionScanner.XML_COMMENT, DamagerRepairer.nonRuleBased
      ⟨⟨n + 4, IXMLColorConstants.XML_COMMENT⟩⟩)]
  ⟨entries, entries⟩

open XMLConfiguration

/-- A colour that is not in the table is created and put there. -/
theorem getColor_new {c : XMLConfiguration} {rgb : RGB}
    (h : c.colorManager.fColorTable.lookup rgb = none) (d : Display) :
    getColor rgb (c, d) =
      (⟨d.created.length, rgb⟩,
        { c with colorManager :=
            ⟨c.colorManager.fColorTable ++ [(rgb, ⟨d.created.length, rgb⟩)]⟩ },
        { d with created := d.created ++ [⟨d.created.length, rgb⟩] }) := by
  simp [getColor, ColorManager.getColor, h, Display.newColor]

/-- The scanner of tags is built from two new colours. -/
theorem getXMLTagScanner_fresh (strategy : Bool) (d : Display) (n : ℕ)
    (hn : d.created.length = n) :
    getXMLTagScanner (⟨strategy, none, none, .new⟩, d) =
      (tagScannerWith ⟨n, IXMLColorConstants.STRING⟩ ⟨n + 1, IXMLColorConstants.TAG⟩,
        ⟨strategy,
          some (tagScannerWith ⟨n, IXMLColorConstants.STRING⟩ ⟨n + 1, IXMLColorConstants.TAG⟩),
          none,
          ⟨((colorsFrom n).take 2).map fun c => (c.rgb, c)⟩⟩,
        { d with created := d.created ++ (colorsFrom n).take 2 }) := by
  have hstring : ColorManager.new.fColorTable.lookup IXMLColorConstants.STRING = none := rfl
  have htag (c : Color) : ([(IXMLColorConstants.STRING, c)]).lookup IXMLColorConstants.TAG
    = none := rfl
  simp only [getXMLTagScanner, newXMLTagScanner, bind_run, get_run, pure_run, modify_run]
  rw [getColor_new hstring, getColor_new (htag _)]
  simp [hn, colorsFrom, tagScannerWith, RuleBasedScanner.setDefaultReturnToken, ColorManager.new]

/-- The other scanner is built from the next two. -/
theorem getXMLScanner_fresh (strategy : Bool) (tagScanner : Option RuleBasedScanner) (d : Display)
    (n : ℕ) (hn : d.created.length = n + 2) :
    getXMLScanner (⟨strategy, tagScanner, none,
        ⟨((colorsFrom n).take 2).map fun c => (c.rgb, c)⟩⟩, d) =
      (scannerWith ⟨n + 2, IXMLColorConstants.PROC_INSTR⟩ ⟨n + 3, IXMLColorConstants.DEFAULT⟩,
        ⟨strategy, tagScanner,
          some (scannerWith ⟨n + 2, IXMLColorConstants.PROC_INSTR⟩
            ⟨n + 3, IXMLColorConstants.DEFAULT⟩),
          ⟨((colorsFrom n).take 4).map fun c => (c.rgb, c)⟩⟩,
        { d with created := d.created ++ ((colorsFrom n).drop 2).take 2 }) := by
  have hproc : (((colorsFrom n).take 2).map fun c => (c.rgb, c)).lookup
      IXMLColorConstants.PROC_INSTR = none := rfl
  have hdefault (c : Color) : ((((colorsFrom n).take 2).map fun c => (c.rgb, c)) ++
      [(IXMLColorConstants.PROC_INSTR, c)]).lookup IXMLColorConstants.DEFAULT = none := rfl
  simp only [getXMLScanner, newXMLScanner, bind_run, get_run, pure_run, modify_run]
  rw [getColor_new hproc, getColor_new (hdefault _)]
  simp [hn, colorsFrom, scannerWith, RuleBasedScanner.setDefaultReturnToken]

/-- **The first time**, five colours are created. -/
theorem getPresentationReconciler_fresh (strategy : Bool) (d : Display) :
    getPresentationReconciler (⟨strategy, none, none, .new⟩, d) =
      (reconcilerFrom d.created.length, configuredFrom d.created.length strategy,
        { d with created := d.created ++ colorsFrom d.created.length }) := by
  obtain ⟨n, hn⟩ : ∃ n, d.created.length = n := ⟨_, rfl⟩
  have hcomment : (((colorsFrom n).take 4).map fun c => (c.rgb, c)).lookup
      IXMLColorConstants.XML_COMMENT = none := rfl
  have hlen : (d.created ++ (colorsFrom n).take 2).length = n + 2 := by
    rw [List.length_append, hn]
    rfl
  rw [hn]
  simp only [getPresentationReconciler, bind_run, pure_run]
  rw [getXMLTagScanner_fresh strategy d n hn, getXMLScanner_fresh _ _ _ n hlen,
    getColor_new hcomment]
  simp [hn, colorsFrom, reconcilerFrom, configuredFrom, PresentationReconciler.set]

/-- **From then on**, the same ones are used, and the display is left alone. -/
theorem getPresentationReconciler_configured (n : ℕ) (strategy : Bool) (d : Display) :
    getPresentationReconciler (configuredFrom n strategy, d) =
      (reconcilerFrom n, configuredFrom n strategy, d) := by
  rfl

end SilverTree
