import SilverTree.Workbench

/-!
# Structured viewers and their content providers

A JFace viewer shows what its content provider returns.  Setting the input, a
refresh, and replacing a provider each query the installed provider once and
replace the elements on display by the answer; the first provider is queried when
the input is set.  A query may change the provider, since providers cache.

## Main definitions

* `ProviderClass P E` — a class of content providers: its constructor on a content
  string, and its `getElements`.
* `Viewer P E` — a viewer, with `setContentProvider`, `setInput` and `refresh`.
* `Viewer.content` — the content string in the installed provider.
-/

namespace SilverTree

/-- A class of content providers with objects `P` showing elements `E`.  Every
provider of the plug-in keeps the content string it was built with; the two laws
say so. -/
structure ProviderClass (P E : Type) where
  new : Option Content → P
  getElements : P → List E × P
  /-- The `_content` field. -/
  content : P → Option Content
  content_new : ∀ c, content (new c) = c
  content_getElements : ∀ p, content (getElements p).2 = content p

/-- A viewer: the installed provider, whether the input has been set, and the
elements on display. -/
structure Viewer (P E : Type) where
  contentProvider : Option P
  hasInput : Bool
  elements : List E

namespace Viewer

variable {P E : Type} (K : ProviderClass P E)

/-- A viewer that has just been created. -/
def new : Viewer P E := ⟨none, false, []⟩

/-- Query the provider and show its answer. -/
def refresh (v : Viewer P E) : Viewer P E :=
  match v.contentProvider, v.hasInput with
  | some p, true => ⟨some (K.getElements p).2, true, (K.getElements p).1⟩
  | _, _ => v

/-- Install a provider.  Only when it replaces another one is the viewer refreshed. -/
def setContentProvider (v : Viewer P E) (p : P) : Viewer P E :=
  match v.contentProvider with
  | none => { v with contentProvider := some p }
  | some _ => refresh K { v with contentProvider := some p }

/-- Set the input, which is never changed afterwards. -/
def setInput (v : Viewer P E) : Viewer P E := refresh K { v with hasInput := true }

/-- The content string in the installed provider. -/
def content (v : Viewer P E) : Option Content := v.contentProvider.bind K.content

/-- A viewer with a provider and an input: every viewer of an open view is one. -/
def Ready (v : Viewer P E) : Prop := v.contentProvider.isSome = true ∧ v.hasInput = true

variable {K}

theorem refresh_of_ready {v : Viewer P E} (h : v.Ready) :
    ∃ p, v.contentProvider = some p ∧
      refresh K v = ⟨some (K.getElements p).2, true, (K.getElements p).1⟩ := by
  obtain ⟨p, hp⟩ := Option.isSome_iff_exists.mp h.1
  refine ⟨p, hp, ?_⟩
  simp [refresh, hp, h.2]

theorem setContentProvider_of_ready {v : Viewer P E} (h : v.Ready) (p : P) :
    setContentProvider K v p = ⟨some (K.getElements p).2, true, (K.getElements p).1⟩ := by
  obtain ⟨q, hq⟩ := Option.isSome_iff_exists.mp h.1
  simp [setContentProvider, refresh, hq, h.2]

/-- What a new view does with its viewer: install a provider, then set the input. -/
theorem setInput_setContentProvider_new (p : P) :
    setInput K (setContentProvider K new p)
      = ⟨some (K.getElements p).2, true, (K.getElements p).1⟩ := rfl

theorem ready_mk (p : P) (es : List E) : (⟨some p, true, es⟩ : Viewer P E).Ready := ⟨rfl, rfl⟩

/-- A refresh keeps the content string. -/
theorem content_refresh {v : Viewer P E} (h : v.Ready) : (refresh K v).content K = v.content K := by
  obtain ⟨p, hp, hr⟩ := refresh_of_ready (K := K) h
  rw [hr]
  simp [content, hp, K.content_getElements]

/-- A new provider brings its content string along. -/
theorem content_queried_new (c : Option Content) (es : List E) :
    (⟨some (K.getElements (K.new c)).2, true, es⟩ : Viewer P E).content K = c := by
  simp [content, K.content_getElements, K.content_new]

end Viewer

end SilverTree
