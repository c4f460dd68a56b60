import Mathlib.Data.Set.Image
import Mathlib.Tactic.Linarith
import Mathlib.Tactic.Ring
import DocumentRelay.Models.DocumentModel

/-!
# Graphics contexts

The part of Core Graphics and UIKit that `addOverlay` draws with: affine
transformations, a graphics context with its saved states and its pages, and
UIKit's stack of contexts, whose top is the current one.

A context is asked to draw under the transformation in force at that moment, so
what is drawn is a log of `Mark`s that carry it.  `region` is where a rectangle
lands under a transformation; `region_flip` says which rectangle of flipped
coordinates lands in the same place.  Pages that are begun or ended and states that
are saved or restored are logged as `ContextCall`s, to be counted.

Some of what the two frameworks do is not fixed here but given by a `Platform`:
whether a file can be created, the transformation a new context or a new page starts
with, what `beginPDFPage` does while a page is open, and whether closing a context
ends the pages left open in it.  What UIKit documents is fixed: its own
`UIGraphicsBeginPDFPageWithInfo` ends an open page before it begins the next.
-/

namespace DocumentRelay

/-! ## Transformations -/

structure CGAffineTransform where
  a : ℚ
  b : ℚ
  c : ℚ
  d : ℚ
  tx : ℚ
  ty : ℚ
  deriving DecidableEq, Repr

namespace CGAffineTransform

def identity : CGAffineTransform := ⟨1, 0, 0, 1, 0, 0⟩

/-- `CGPoint.applying`. -/
def apply (t : CGAffineTransform) (p : CGPoint) : CGPoint :=
  ⟨t.a * p.x + t.c * p.y + t.tx, t.b * p.x + t.d * p.y + t.ty⟩

/-- A translation comes before what the transformation did so far. -/
def translatedBy (t : CGAffineTransform) (x y : ℚ) : CGAffineTransform :=
  { t with tx := t.a * x + t.c * y + t.tx, ty := t.b * x + t.d * y + t.ty }

/-- So does a scaling. -/
def scaledBy (t : CGAffineTransform) (sx sy : ℚ) : CGAffineTransform :=
  { t with a := t.a * sx, b := t.b * sx, c := t.c * sy, d := t.d * sy }

theorem apply_translatedBy (t : CGAffineTransform) (x y : ℚ) (p : CGPoint) :
    (t.translatedBy x y).apply p = t.apply ⟨p.x + x, p.y + y⟩ := by
  simp only [apply, translatedBy, CGPoint.mk.injEq]
  constructor <;> ring

theorem apply_scaledBy (t : CGAffineTransform) (sx sy : ℚ) (p : CGPoint) :
    (t.scaledBy sx sy).apply p = t.apply ⟨sx * p.x, sy * p.y⟩ := by
  simp only [apply, scaledBy, CGPoint.mk.injEq]
  constructor <;> ring

/-- Where points land. -/
def region (t : CGAffineTransform) (points : Set CGPoint) : Set CGPoint :=
  Set.image t.apply points

/-- `translateBy(x: 0, y: height)` and `scaleBy(x: 1, y: -1)`. -/
def flipped (t : CGAffineTransform) (height : ℚ) : CGAffineTransform :=
  (t.translatedBy 0 height).scaledBy 1 (-1)

/-- After the two, the vertical axis runs down from `height`. -/
theorem apply_flipped (t : CGAffineTransform) (height : ℚ) (p : CGPoint) :
    (t.flipped height).apply p = t.apply ⟨p.x, height - p.y⟩ := by
  rw [flipped, apply_scaledBy, apply_translatedBy]
  congr 2 <;> ring

end CGAffineTransform

/-- The points of a rectangle; a negative size extends it to the other side of the
origin. -/
def CGRect.points (rect : CGRect) : Set CGPoint :=
  { p | min rect.origin.x (rect.origin.x + rect.size.width) ≤ p.x ∧
      p.x ≤ max rect.origin.x (rect.origin.x + rect.size.width) ∧
      min rect.origin.y (rect.origin.y + rect.size.height) ≤ p.y ∧
      p.y ≤ max rect.origin.y (rect.origin.y + rect.size.height) }

/-- The points of a rectangle without negative sizes. -/
theorem CGRect.mem_points {rect : CGRect} (standard : rect.Standardized) (p : CGPoint) :
    p ∈ rect.points ↔
      rect.origin.x ≤ p.x ∧ p.x ≤ rect.origin.x + rect.size.width ∧
        rect.origin.y ≤ p.y ∧ p.y ≤ rect.origin.y + rect.size.height := by
  have wide : rect.origin.x ≤ rect.origin.x + rect.size.width := by linarith [standard.1]
  have high : rect.origin.y ≤ rect.origin.y + rect.size.height := by linarith [standard.2]
  simp only [points, Set.mem_ofPred_eq, min_eq_left wide, max_eq_right wide, min_eq_left high,
    max_eq_right high]

/-- The rectangle in coordinates whose vertical axis runs down from `height`. -/
def CGRect.flipped (rect : CGRect) (height : ℚ) : CGRect :=
  .make rect.origin.x (height - rect.height - rect.origin.y) rect.width rect.height

/-- **A flipped rectangle in flipped coordinates is the rectangle**, under any
transformation. -/
theorem region_flip {rect : CGRect} (standard : rect.Standardized) (t : CGAffineTransform)
    (height : ℚ) :
    (t.flipped height).region (rect.flipped height).points = t.region rect.points := by
  have width : rect.width = rect.size.width := abs_of_nonneg standard.1
  have tall : rect.height = rect.size.height := abs_of_nonneg standard.2
  have standard' : (rect.flipped height).Standardized := ⟨abs_nonneg _, abs_nonneg _⟩
  have member (x y : ℚ) :
      (⟨x, height - y⟩ : CGPoint) ∈ (rect.flipped height).points ↔ ⟨x, y⟩ ∈ rect.points := by
    rw [CGRect.mem_points standard', CGRect.mem_points standard]
    simp only [CGRect.flipped, CGRect.make, width, tall]
    constructor
    · rintro ⟨left, right, low, up⟩
      exact ⟨left, right, by linarith, by linarith⟩
    · rintro ⟨left, right, low, up⟩
      exact ⟨left, right, by linarith, by linarith⟩
  ext q
  constructor
  · rintro ⟨p, mem, rfl⟩
    have back := (member p.x (height - p.y)).mp (by rwa [sub_sub_cancel])
    exact ⟨_, back, (CGAffineTransform.apply_flipped t height p).symm⟩
  · rintro ⟨p, mem, rfl⟩
    refine ⟨⟨p.x, height - p.y⟩, (member p.x p.y).mpr mem, ?_⟩
    rw [CGAffineTransform.apply_flipped, sub_sub_cancel]

/-! ## PDF documents -/

structure CGPDFPage where
  mediaBox : CGRect
  deriving DecidableEq, Repr

/-- An opened document.  A page that `page(at:)` fails to load is `none`. -/
structure CGPDFDocument where
  pages : List (Option CGPDFPage)
  deriving DecidableEq, Repr

namespace CGPDFDocument

def numberOfPages (document : CGPDFDocument) : ℕ := document.pages.length

/-- `page(at:)`; the first page has number 1. -/
def page (document : CGPDFDocument) : ℕ → Option CGPDFPage
  | 0 => none
  | number + 1 => document.pages[number]?.join

/-- How many pages load before the first that does not. -/
def loadedPages (document : CGPDFDocument) : ℕ :=
  (document.pages.takeWhile Option.isSome).length

theorem loadedPages_le (document : CGPDFDocument) :
    document.loadedPages ≤ document.numberOfPages :=
  (List.takeWhile_sublist _).length_le

theorem page_ne_none_of_lt {document : CGPDFDocument} {i : ℕ} (lt : i < document.loadedPages) :
    document.page (i + 1) ≠ none := by
  obtain ⟨pages⟩ := document
  simp only [loadedPages, page] at lt ⊢
  induction pages generalizing i with
  | nil => simp at lt
  | cons first rest ih =>
      cases first with
      | none => simp at lt
      | some _ =>
          cases i with
          | zero => simp
          | succ i => simpa using ih (by simpa using lt)

theorem page_loadedPages {document : CGPDFDocument}
    (inside : document.loadedPages < document.numberOfPages) :
    document.page (document.loadedPages + 1) = none := by
  obtain ⟨pages⟩ := document
  simp only [loadedPages, numberOfPages, page] at inside ⊢
  induction pages with
  | nil => simp at inside
  | cons first rest ih =>
      cases first with
      | none => simp
      | some _ => simpa using ih (by simpa using inside)

/-- Every page loads. -/
def AllLoad (document : CGPDFDocument) : Prop :=
  ∀ i < document.numberOfPages, document.page (i + 1) ≠ none

theorem allLoad_iff {document : CGPDFDocument} :
    document.AllLoad ↔ document.loadedPages = document.numberOfPages := by
  constructor
  · intro load
    rcases Nat.lt_or_eq_of_le document.loadedPages_le with inside | all
    · exact absurd (page_loadedPages inside) (load _ inside)
    · exact all
  · intro all i lt
    exact page_ne_none_of_lt (all ▸ lt)

end CGPDFDocument

/-! ## Contexts -/

inductive ContextKind where
  /-- A PDF context writes a file. -/
  | pdf (path : String)
  | other
  deriving DecidableEq, Repr

/-- A graphics context.  A page that was begun is open until it is ended. -/
structure GraphicsContext where
  kind : ContextKind
  ctm : CGAffineTransform
  savedStates : List CGAffineTransform
  pagesBegun : ℕ
  openPages : ℕ
  deriving DecidableEq, Repr

/-- What happens to the pages and states of a context. -/
inductive ContextCall where
  | beginPage
  | endPage
  | saveGState
  | restoreGState
  deriving DecidableEq, Repr

/-- What a page that is begun does to a page that is open: it ends it, it is not begun
itself, or it lies in it. -/
inductive NestedPage where
  | endsOpen
  | ignored
  | nests
  deriving DecidableEq, Repr

/-- What is not the app's: URLs, the file system and the frameworks. -/
structure Platform (U : Type) where
  /-- `URL(string:)`. -/
  urlOfString : String → Option U
  /-- `CGPDFDocument(_:)`. -/
  openPDF : U → Option CGPDFDocument
  /-- `NSSearchPathForDirectoriesInDomains` for the Documents directory. -/
  paths : List String
  paths_ne_nil : paths ≠ []
  /-- The outcome of `UIGraphicsBeginPDFContextToFile`. -/
  creates : String → Bool
  /-- The transformation of a new PDF context. -/
  contextCTM : CGAffineTransform
  /-- The transformation `UIGraphicsBeginPDFPageWithInfo` starts a page with. -/
  infoCTM : GraphicsContext → CGAffineTransform
  /-- The transformation `beginPDFPage` starts a page with. -/
  pageCTM : GraphicsContext → CGAffineTransform
  /-- What `beginPDFPage` does while a page is open. -/
  nestedPage : NestedPage
  /-- `UIGraphicsEndPDFContext` ends the pages left open. -/
  endContextEndsPages : Bool

namespace GraphicsContext

def isPDF (context : GraphicsContext) : Bool :=
  match context.kind with
  | .pdf _ => true
  | .other => false

def translateBy (x y : ℚ) (context : GraphicsContext) : GraphicsContext :=
  { context with ctm := context.ctm.translatedBy x y }

def scaleBy (sx sy : ℚ) (context : GraphicsContext) : GraphicsContext :=
  { context with ctm := context.ctm.scaledBy sx sy }

def saveGState (context : GraphicsContext) : GraphicsContext × List ContextCall :=
  ({ context with savedStates := context.ctm :: context.savedStates }, [.saveGState])

/-- `restoreGState`; without a saved state nothing happens. -/
def restoreGState (context : GraphicsContext) : GraphicsContext × List ContextCall :=
  match context.savedStates with
  | [] => (context, [])
  | ctm :: rest => ({ context with ctm := ctm, savedStates := rest }, [.restoreGState])

/-- A page is begun, in a PDF context only. -/
def beginPage (nested : NestedPage) (start : GraphicsContext → CGAffineTransform)
    (context : GraphicsContext) : GraphicsContext × List ContextCall :=
  let begun : GraphicsContext :=
    { context with ctm := start context, pagesBegun := context.pagesBegun + 1 }
  if context.isPDF then
    if context.openPages = 0 then ({ begun with openPages := 1 }, [.beginPage])
    else
      match nested with
      | .endsOpen => (begun, [.endPage, .beginPage])
      | .ignored => (context, [])
      | .nests => ({ begun with openPages := context.openPages + 1 }, [.beginPage])
  else (context, [])

/-- `endPDFPage`, in a PDF context with an open page only. -/
def endPDFPage (context : GraphicsContext) : GraphicsContext × List ContextCall :=
  if context.isPDF ∧ context.openPages ≠ 0 then
    ({ context with openPages := context.openPages - 1 }, [.endPage])
  else (context, [])

end GraphicsContext

/-! ## The stack of contexts -/

/-- What is asked of the frameworks and can be seen. -/
inductive Mark where
  | beginPDFContextToFile (path : String) (created : Bool)
  /-- The page of this number is drawn. -/
  | drawPDFPage (number : ℕ) (ctm : CGAffineTransform)
  | drawText (text : String) (pos : CGRect) (ctm : CGAffineTransform)
  /-- A state is restored; `ctm` is the transformation in force then. -/
  | restoreGState (ctm : CGAffineTransform)
  deriving DecidableEq, Repr

/-- UIKit's stack of contexts, the current one first, and the marks and calls so
far. -/
structure Graphics where
  stack : List GraphicsContext
  marks : List Mark
  calls : List ContextCall
  deriving DecidableEq, Repr

namespace Graphics

variable {U : Type} (P : Platform U)

/-- `UIGraphicsBeginPDFContextToFile`. -/
def beginPDFContextToFile (path : String) (graphics : Graphics) : Graphics where
  stack :=
    if P.creates path then ⟨.pdf path, P.contextCTM, [], 0, 0⟩ :: graphics.stack
    else graphics.stack
  marks := graphics.marks ++ [.beginPDFContextToFile path (P.creates path)]
  calls := graphics.calls

/-- `UIGraphicsEndPDFContext`: a PDF context is closed and leaves the stack; with
any other nothing happens. -/
def endPDFContext (graphics : Graphics) : Graphics :=
  match graphics.stack with
  | [] => graphics
  | context :: below =>
      if context.isPDF then
        { graphics with
          stack := below
          calls := graphics.calls ++
            if P.endContextEndsPages then List.replicate context.openPages .endPage else [] }
      else graphics

end Graphics

end DocumentRelay
