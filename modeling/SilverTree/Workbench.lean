import Mathlib.Data.Nat.Notation
import Mathlib.Logic.Function.Basic

/-!
# The workbench the views live in

The views of the plug-in are driven by the Eclipse workbench: parts get activated,
files get saved, and the handlers of a view then ask the workbench for the active
editor and the workspace for the content of its file.  This module is the part of
the platform the views can observe.

A workbench window has at most one page, and the part service of the window only
reports parts of that page, so the page reference of a view is either null or this
one page.

## Main definitions

* `IFile`, `IEditorInput`, `IEditorPart`, `IWorkbenchPart` — files, editors, parts.
* `World`, `Event`, `World.apply` — the state of the platform and how it changes.
* `Api` — what the platform answers to the calls of one handler; `World.api` are the
  answers of a platform in which every call succeeds.
* `Content` — a text read from the file of an editor.
-/

namespace SilverTree

/-- A Java `char`, one UTF-16 code unit. -/
abbrev JChar := UInt16

/-- The text of a file, a buffer or a token. -/
abbrev Text := List JChar

/-- The exceptions the modelled code can meet. -/
inductive JavaException
  /-- A method called on `null`. -/
  | nullPointer
  /-- `IFile.getContents` failed. -/
  | core
  /-- `Reader.read` failed. -/
  | io
  /-- A failed cast. -/
  | classCast
  /-- An argument the callee rejects. -/
  | illegalArgument
  /-- A text that should be a number and is none. -/
  | numberFormat
  /-- Thrown by the parser. -/
  | parse
  deriving DecidableEq, Repr

/-! ### Files, editors and parts -/

/-- A workspace file: the path of its folder, and its own name. -/
structure IFile where
  /-- The full path of the folder. -/
  folder : String
  /-- The last segment of the path. -/
  name : String
  deriving DecidableEq, Repr

/-- What an editor is open on.  An input that adapts to a file is assumed to be named
after it, as a `FileEditorInput` is. -/
inductive IEditorInput
  /-- A workspace file, a `FileEditorInput`. -/
  | file (f : IFile)
  /-- Anything else that has a name; it does not adapt to a file. -/
  | other (name : String)
  deriving DecidableEq, Repr

/-- The name of an editor input: of a file, its bare name without the folder. -/
def IEditorInput.getName : IEditorInput → String
  | .file f => f.name
  | .other n => n

/-- `getAdapter(IFile.class)`. -/
def IEditorInput.getAdapter : IEditorInput → Option IFile
  | .file f => some f
  | .other _ => none

/-- The id the device tree editor is registered under. -/
def DeviceTreeEditor.ID : String := "com.silvertree.ideplugin.editors.DeviceTreeEditor"

/-- An open editor. -/
structure IEditorPart where
  /-- Which editor object this is; several may be open on one file. -/
  handle : ℕ
  /-- The id of the kind of editor. -/
  id : String
  /-- What it is open on. -/
  input : IEditorInput
  /-- Whether the editor is an `AbstractTextEditor`. -/
  isTextEditor : Bool
  /-- The device tree editor extends `TextEditor`. -/
  isTextEditor_of_id : id = DeviceTreeEditor.ID → isTextEditor = true
  deriving DecidableEq

/-- The name of the input of an editor. -/
def IEditorPart.getName (e : IEditorPart) : String := e.input.getName

/-- The file an editor is open on, if any. -/
def IEditorPart.getFile (e : IEditorPart) : Option IFile := e.input.getAdapter

/-- An editor on a device tree file. -/
def deviceTreeEditorOn (handle : ℕ) (file : IFile) : IEditorPart :=
  ⟨handle, DeviceTreeEditor.ID, .file file, true, fun _ => rfl⟩

/-- A view of the workbench.  Its id is not that of an editor. -/
structure IViewPart where
  /-- The id the view is registered under. -/
  id : String
  /-- Ids of views and editors differ. -/
  id_ne : id ≠ DeviceTreeEditor.ID
  deriving DecidableEq

/-- A part of the workbench page, or a reference to one. -/
inductive IWorkbenchPart
  | editor (e : IEditorPart)
  | view (v : IViewPart)
  deriving DecidableEq

/-- The id of a part. -/
def IWorkbenchPart.getId : IWorkbenchPart → String
  | .editor e => e.id
  | .view v => v.id

/-- The page of the workbench window. -/
inductive IWorkbenchPage
  | window
  deriving DecidableEq, Repr

/-- The page of a part. -/
def IWorkbenchPart.getPage : IWorkbenchPart → IWorkbenchPage
  | _ => .window

@[simp] theorem IWorkbenchPart.getId_editor (e : IEditorPart) :
    (IWorkbenchPart.editor e).getId = e.id := rfl

@[simp] theorem IWorkbenchPart.getId_view_ne (v : IViewPart) :
    (IWorkbenchPart.view v).getId ≠ DeviceTreeEditor.ID := v.id_ne

/-- An editor that adapts to a file is named after the file. -/
theorem IEditorPart.getName_of_getFile {e : IEditorPart} {f : IFile} (h : e.getFile = some f) :
    f.name = e.getName := by
  obtain ⟨_, _, input, _, _⟩ := e
  cases input with
  | file g => cases h; rfl
  | other n => cases h

/-! ### The state of the platform -/

/-- A resource change notification.  Only `POST_CHANGE` reports changes that have
been made, here the files written with their new texts. -/
inductive IResourceChangeEvent
  | preClose
  | preDelete
  | preRefresh
  | preBuild
  | postBuild
  | postChange (delta : List (IFile × Text))
  deriving DecidableEq

/-- The state of the platform as far as the views can observe it. -/
structure World where
  /-- The saved content of every file. -/
  contents : IFile → Text
  /-- The active part of the page. -/
  activePart : Option IWorkbenchPart
  /-- The active editor of the page: it stays the same when a view is activated. -/
  activeEditor : Option IEditorPart
  /-- The text in the buffer of every editor, saved or not. -/
  buffer : ℕ → Text

/-- Something that happens in the workbench. -/
inductive Event
  /-- A part is activated. -/
  | activated (part : IWorkbenchPart)
  /-- The active editor is closed and no other one becomes active. -/
  | editorClosed
  /-- The workspace notifies its listeners: a save is a `POST_CHANGE`. -/
  | resource (event : IResourceChangeEvent)
  /-- The buffer of an editor is changed without saving it. -/
  | edited (editor : IEditorPart) (text : Text)
  deriving DecidableEq

/-- The saved contents after a list of writes. -/
def writeAll (contents : IFile → Text) (delta : List (IFile × Text)) : IFile → Text :=
  delta.foldl (fun c d => Function.update c d.1 d.2) contents

/-- How an event changes the platform; the handlers of the views run afterwards. -/
def World.apply (w : World) : Event → World
  | .activated (.editor e) => { w with activePart := some (.editor e), activeEditor := some e }
  | .activated (.view v) => { w with activePart := some (.view v) }
  | .editorClosed => { w with activePart := none, activeEditor := none }
  | .resource (.postChange delta) => { w with contents := writeAll w.contents delta }
  | .resource _ => w
  | .edited e text => { w with buffer := Function.update w.buffer e.handle text }

/-! ### What the platform answers to a handler -/

/-- The places in the code of a view that ask for the active editor.  Each is
reached at most once while one event is handled. -/
inductive CallSite
  /-- `createPartControl`, for the name. -/
  | createName
  /-- `partActivated`, for the name to compare. -/
  | activatedName
  /-- `partActivated`, for the new name. -/
  | reloadName
  /-- `getDeviceTreeEditorContent`. -/
  | content
  deriving DecidableEq, Repr

/-- What `reader.read()` returns, call after call, up to the end of the stream. -/
abbrev InputStream := List (Except JavaException JChar)

/-- The answers of the platform while one event is handled. -/
structure Api where
  /-- `page.getActiveEditor()`; null is allowed at every call. -/
  getActiveEditor : CallSite → Option IEditorPart
  /-- `file.getContents()`. -/
  getContents : IFile → Except JavaException InputStream

/-- The loop that copies a stream into a `StringBuilder`, `text` being what has
been appended so far. -/
def readLoop (text : Text) : InputStream → Except JavaException Text
  | [] => .ok text
  | .ok c :: rest => readLoop (text ++ [c]) rest
  | .error e :: _ => .error e

/-- Opening a file and reading all of it. -/
def readFile (api : Api) (file : IFile) : Except JavaException Text :=
  match api.getContents file with
  | .ok stream => readLoop [] stream
  | .error e => .error e

/-- A platform in which every call gives the same answer and every read succeeds. -/
def World.api (w : World) : Api where
  getActiveEditor _ := w.activeEditor
  getContents f := .ok ((w.contents f).map .ok)

@[simp] theorem World.api_getActiveEditor (w : World) (c : CallSite) :
    w.api.getActiveEditor c = w.activeEditor := rfl

/-- A stream that never fails is read to its end. -/
theorem readLoop_map_ok : ∀ (t text : Text), readLoop text (t.map .ok) = .ok (text ++ t) := by
  intro t
  induction t with
  | nil => intro text; simp [readLoop]
  | cons c t ih => intro text; simp [readLoop, ih]

@[simp] theorem readFile_api (w : World) (f : IFile) : readFile w.api f = .ok (w.contents f) := by
  simp [readFile, World.api, readLoop_map_ok]

/-! ### Contents -/

/-- A text that was read from a file, together with where it came from: the editor
that was asked for its file, and that file.  The code only keeps the text; the
origin is a history variable. -/
structure Content where
  /-- The text. -/
  text : Text
  /-- The editor whose file was read. -/
  editor : IEditorPart
  /-- The file. -/
  file : IFile
  /-- The file is the one the editor is open on. -/
  getFile_editor : editor.getFile = some file
  deriving DecidableEq

/-- A text read from a file that is open in a device tree editor. -/
def contentOn (file : IFile) (text : Text) : Content :=
  ⟨text, deviceTreeEditorOn 0 file, file, rfl⟩

/-- The saved content of the file of an editor. -/
def World.contentOf (w : World) (e : IEditorPart) : Option Content :=
  match h : e.getFile with
  | none => none
  | some f => some ⟨w.contents f, e, f, h⟩

/-- The saved content of the file of the active editor. -/
def World.activeContent (w : World) : Option Content := w.activeEditor.bind w.contentOf

theorem World.contentOf_of_getFile (w : World) {e : IEditorPart} {f : IFile}
    (h : e.getFile = some f) : w.contentOf e = some ⟨w.contents f, e, f, h⟩ := by
  unfold World.contentOf
  split
  · next h' => rw [h] at h'; cases h'
  · next g h' =>
    rw [h] at h'
    cases h'
    rfl

theorem World.contentOf_of_getFile_none (w : World) {e : IEditorPart}
    (h : e.getFile = none) : w.contentOf e = none := by
  unfold World.contentOf
  split
  · rfl
  · next h' => rw [h] at h'; cases h'

/-- What is read from an editor is the saved text of its file. -/
theorem World.contentOf_spec {w : World} {e : IEditorPart} {c : Content}
    (h : w.contentOf e = some c) : c.editor = e ∧ c.text = w.contents c.file := by
  cases hf : e.getFile with
  | none => rw [w.contentOf_of_getFile_none hf] at h; cases h
  | some f =>
    rw [w.contentOf_of_getFile hf] at h
    cases h
    exact ⟨rfl, rfl⟩

theorem World.activeContent_spec {w : World} {c : Content} (h : w.activeContent = some c) :
    w.activeEditor = some c.editor ∧ c.text = w.contents c.file := by
  unfold World.activeContent at h
  cases he : w.activeEditor with
  | none => rw [he] at h; cases h
  | some e =>
    rw [he, Option.bind_some] at h
    obtain ⟨hed, htext⟩ := World.contentOf_spec h
    exact ⟨by rw [hed], htext⟩

/-! ### A small workspace

Two projects with a file of the same name each, another device tree file and a text
file.  It serves the concrete runs that accompany the theorems. -/

def fileX : IFile := ⟨"/p", "x.dts"⟩

def fileX' : IFile := ⟨"/q", "x.dts"⟩

def fileY : IFile := ⟨"/p", "y.dts"⟩

def fileNotes : IFile := ⟨"/p", "notes.txt"⟩

def editorX : IEditorPart := deviceTreeEditorOn 0 fileX

def editorX' : IEditorPart := deviceTreeEditorOn 1 fileX'

def editorY : IEditorPart := deviceTreeEditorOn 3 fileY

/-- The plain text editor of the workbench. -/
def editorNotes : IEditorPart :=
  ⟨2, "org.eclipse.ui.DefaultTextEditor", .file fileNotes, true, fun _ => rfl⟩

/-- The two files `x.dts` hold `a;` and `b;`, the others `c;`.  No buffer has been
changed, and the editor on `/p/x.dts` is active. -/
def sampleWorld : World where
  contents f := if f = fileX then [97, 59] else if f = fileX' then [98, 59] else [99, 59]
  activePart := some (.editor editorX)
  activeEditor := some editorX
  buffer n := if n = 0 then [97, 59] else if n = 1 then [98, 59] else [99, 59]

end SilverTree
