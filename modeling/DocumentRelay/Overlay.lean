import DocumentRelay.Graphics.Context
import DocumentRelay.Lib.Loop
import DocumentRelay.Views.PDFRelay

/-!
# Exporting a filled document

`addOverlay` of `Env/GlobalEnviroment.swift` writes a copy of the document's PDF
with the texts of its fields drawn over it.  It opens a context, goes through the
pages, and for each draws the page and then the texts, in coordinates flipped
between the two.

* `overlayPage_eq` — what one pass of the page loop draws and leaves.
* `overlayPages_ok`, `overlayPages_error` — the loop gets as far as the pages load.
* `overlay_lands_on_fields` — every text is drawn where the rectangle of its field is.
* `drawnOnce_iff` — every field is drawn on every page, so only a PDF of one page gets
  each field once.
-/

namespace DocumentRelay

variable {U : Type} (P : Platform U)

/-! ## The function -/

/-- The current context, with what has been drawn and called so far. -/
structure Drawing where
  context : GraphicsContext
  marks : List Mark
  calls : List ContextCall
  deriving DecidableEq, Repr

namespace Drawing

def on (change : GraphicsContext → GraphicsContext) (drawing : Drawing) : Drawing :=
  { drawing with context := change drawing.context }

/-- A change of pages or states, which is logged. -/
def call (change : GraphicsContext → GraphicsContext × List ContextCall) (drawing : Drawing) :
    Drawing :=
  { drawing with
    context := (change drawing.context).1
    calls := drawing.calls ++ (change drawing.context).2 }

/-- A mark under the transformation in force. -/
def mark (m : CGAffineTransform → Mark) (drawing : Drawing) : Drawing :=
  { drawing with marks := drawing.marks ++ [m drawing.context.ctm] }

end Drawing

/-- `pos` of a field, under a first page of this height. -/
def fieldPos (height : ℚ) (field : DocumentField) : CGRect :=
  .make field.rect.origin.x (height - field.rect.height - field.rect.origin.y) field.rect.width
    field.rect.height

/-- One pass of the field loop. -/
def overlayField (height : ℚ) (drawing : Drawing) (field : DocumentField) : Drawing :=
  drawing.mark (.drawText (field.fillWith.getD "") (fieldPos height field))

/-- One pass of the page loop.  An error is the `return ""` in the middle of it. -/
def overlayPage (originalDocument : CGPDFDocument) (height : ℚ) (fields : List DocumentField)
    (drawing : Drawing) (pageIndex : ℕ) : Except Drawing Drawing :=
  let drawing := drawing.call (GraphicsContext.beginPage P.nestedPage P.pageCTM)
  match originalDocument.page (pageIndex + 1) with
  | none => .error drawing
  | some _ =>
      let drawing := drawing.on (GraphicsContext.translateBy 0 height)
      let drawing := drawing.on (GraphicsContext.scaleBy 1 (-1))
      let drawing := drawing.mark (.drawPDFPage (pageIndex + 1))
      let drawing := drawing.call GraphicsContext.saveGState
      let drawing := drawing.on (GraphicsContext.translateBy 0 height)
      let drawing := drawing.on (GraphicsContext.scaleBy 1 (-1))
      let drawing := fields.foldl (overlayField height) drawing
      let drawing := drawing.call GraphicsContext.restoreGState
      let drawing := drawing.mark .restoreGState
      .ok (drawing.call GraphicsContext.endPDFPage)

/-- The page loop. -/
def overlayPages (originalDocument : CGPDFDocument) (height : ℚ) (fields : List DocumentField)
    (drawing : Drawing) : Except Drawing Drawing :=
  (List.range originalDocument.numberOfPages).foldlM
    (overlayPage P originalDocument height fields) drawing

/-- `paths[0]`. -/
def documentsDirectory : String := P.paths.head P.paths_ne_nil

/-- `fileName`. -/
def overlayFileName (docModel : DocumentModel) : String := docModel.name ++ ".pdf"

/-- `pathForPDF`, and `documentoPath` the same once more. -/
def overlayPath (docModel : DocumentModel) : String :=
  documentsDirectory P ++ ("/" ++ overlayFileName docModel)

/-- The rest of `addOverlay` once the file was asked for. -/
def exportPDF (originalDocument : CGPDFDocument) (pageSize : CGRect) (docModel : DocumentModel)
    (graphics : Graphics) : String × Graphics :=
  match graphics.stack with
  | [] => ("", graphics)
  | pdfContext :: below =>
      let drawing : Drawing := ⟨pdfContext, graphics.marks, graphics.calls⟩
      -- `UIGraphicsBeginPDFPageWithInfo`, and no `endPDFPage` before the first pass.
      let drawing := drawing.call (GraphicsContext.beginPage .endsOpen P.infoCTM)
      match overlayPages P originalDocument pageSize.height docModel.fieldsToFill drawing with
      | .error drawing => ("", ⟨drawing.context :: below, drawing.marks, drawing.calls⟩)
      | .ok drawing =>
          (overlayPath P docModel,
            Graphics.endPDFContext P ⟨drawing.context :: below, drawing.marks, drawing.calls⟩)

/-- `addOverlay`: the path it returns, and the graphics it leaves.  `none` is a trap
of `url!`, of the cast of the URL or of `page(at: 1)!`. -/
def addOverlay (docModel : DocumentModel) (graphics : Graphics) :
    Option (String × Graphics) := do
  let url ← addOverlayURL P.urlOfString docModel
  match P.openPDF url with
  | none => return ("", graphics)
  | some originalDocument =>
      let firstPage ← originalDocument.page 1
      let pageSize := firstPage.mediaBox
      return exportPDF P originalDocument pageSize docModel
        (graphics.beginPDFContextToFile P (overlayPath P docModel))

/-! ## One pass -/

section Pass

variable {P} {originalDocument : CGPDFDocument} {height : ℚ} {fields : List DocumentField}

/-- The two calls that turn the vertical axis over. -/
def GraphicsContext.flipped (height : ℚ) (context : GraphicsContext) : GraphicsContext :=
  (context.translateBy 0 height).scaleBy 1 (-1)

/-- A saved state is restored whatever was done to the transformation since. -/
theorem restoreGState_flipped_saveGState (height : ℚ) (context : GraphicsContext) :
    (context.saveGState.1.flipped height).restoreGState = (context, [.restoreGState]) := rfl

/-- What a pass of the page loop draws: the page, the texts under the flipped
transformation, and the transformation restored. -/
def pageMarks (height : ℚ) (fields : List DocumentField) (number : ℕ)
    (ctm : CGAffineTransform) :
    List Mark :=
  .drawPDFPage number ctm ::
    (fields.map fun field =>
      .drawText (field.fillWith.getD "") (fieldPos height field) (ctm.flipped height)) ++
    [.restoreGState ctm]

theorem foldl_overlayField (height : ℚ) (fields : List DocumentField) (drawing : Drawing) :
    fields.foldl (overlayField height) drawing =
      { drawing with
        marks := drawing.marks ++ fields.map fun field =>
          .drawText (field.fillWith.getD "") (fieldPos height field) drawing.context.ctm } := by
  induction fields generalizing drawing with
  | nil => simp
  | cons field rest ih =>
      rw [List.foldl_cons, ih]
      simp [overlayField, Drawing.mark]

/-- The context as a pass draws its page. -/
def pageContext (P : Platform U) (height : ℚ) (context : GraphicsContext) : GraphicsContext :=
  (context.beginPage P.nestedPage P.pageCTM).1.flipped height

/-- What a pass calls: a page begun, a state saved and restored, a page ended. -/
def pageCalls (P : Platform U) (height : ℚ) (context : GraphicsContext) : List ContextCall :=
  (context.beginPage P.nestedPage P.pageCTM).2 ++ .saveGState :: .restoreGState ::
    (pageContext P height context).endPDFPage.2

/-- **One pass.**  It draws the page under some transformation and the texts under
the flipped one, restores the first, and ends the page. -/
theorem overlayPage_eq {pageIndex : ℕ} (loads : originalDocument.page (pageIndex + 1) ≠ none)
    (drawing : Drawing) :
    overlayPage P originalDocument height fields drawing pageIndex =
      .ok ⟨(pageContext P height drawing.context).endPDFPage.1,
        drawing.marks ++ pageMarks height fields (pageIndex + 1)
          (pageContext P height drawing.context).ctm,
        drawing.calls ++ pageCalls P height drawing.context⟩ := by
  obtain ⟨currentPage, loaded⟩ := Option.ne_none_iff_exists'.mp loads
  simp only [overlayPage, loaded, foldl_overlayField]
  refine congrArg Except.ok ?_
  -- The texts are drawn between saving and restoring the state the page was drawn in.
  have restored :=
    restoreGState_flipped_saveGState height (pageContext P height drawing.context)
  have context := congrArg (fun result => result.1.endPDFPage) restored
  simp only [Drawing.on, Drawing.call, Drawing.mark, Drawing.mk.injEq]
  refine ⟨congrArg Prod.fst context, ?_, ?_⟩
  · simp only [pageMarks, List.append_assoc, List.cons_append, List.nil_append]
    rfl
  · simp only [pageCalls, List.append_assoc]
    rfl

theorem overlayPage_error {pageIndex : ℕ} (fails : originalDocument.page (pageIndex + 1) = none)
    (drawing : Drawing) :
    overlayPage P originalDocument height fields drawing pageIndex =
      .error (drawing.call (GraphicsContext.beginPage P.nestedPage P.pageCTM)) := by
  simp only [overlayPage, fails]

end Pass

/-! ## The loop -/

/-- The context after the first passes. -/
def contextAfter (height : ℚ) (context : GraphicsContext) : ℕ → GraphicsContext
  | 0 => context
  | passes + 1 => (pageContext P height (contextAfter height context passes)).endPDFPage.1

/-- What the first passes draw. -/
def passMarks (height : ℚ) (fields : List DocumentField) (context : GraphicsContext)
    (passes : ℕ) : List Mark :=
  (List.range passes).flatMap fun k =>
    pageMarks height fields (k + 1) (pageContext P height (contextAfter P height context k)).ctm

/-- What the first passes call. -/
def passCalls (height : ℚ) (context : GraphicsContext) (passes : ℕ) : List ContextCall :=
  (List.range passes).flatMap fun k => pageCalls P height (contextAfter P height context k)

section Loop

variable {P} {originalDocument : CGPDFDocument} {height : ℚ} {fields : List DocumentField}

/-- The drawing after the first passes. -/
def Drawing.after (P : Platform U) (height : ℚ) (fields : List DocumentField)
    (drawing : Drawing) (passes : ℕ) : Drawing :=
  ⟨contextAfter P height drawing.context passes,
    drawing.marks ++ passMarks P height fields drawing.context passes,
    drawing.calls ++ passCalls P height drawing.context passes⟩

@[simp] theorem Drawing.after_zero (drawing : Drawing) :
    drawing.after P height fields 0 = drawing := by
  simp [after, contextAfter, passMarks, passCalls]

/-- A pass over a page that loads leads on. -/
theorem overlayPage_after {passes : ℕ} (loads : originalDocument.page (passes + 1) ≠ none)
    (drawing : Drawing) :
    overlayPage P originalDocument height fields (drawing.after P height fields passes) passes =
      .ok (drawing.after P height fields (passes + 1)) := by
  rw [overlayPage_eq loads]
  simp [Drawing.after, contextAfter, passMarks, passCalls, List.range_succ]

/-- **The loop where every page loads.** -/
theorem overlayPages_ok
    (load : ∀ i < originalDocument.numberOfPages, originalDocument.page (i + 1) ≠ none)
    (drawing : Drawing) :
    overlayPages P originalDocument height fields drawing =
      .ok (drawing.after P height fields originalDocument.numberOfPages) := by
  have loop := IndexLoop.foldlM_range (drawing.after P height fields)
    fun k inside => overlayPage_after (load k inside) drawing
  rw [Drawing.after_zero] at loop
  exact loop

/-- **The loop where a page does not**: it stops with that page begun. -/
theorem overlayPages_error {passes : ℕ} (inside : passes < originalDocument.numberOfPages)
    (load : ∀ i < passes, originalDocument.page (i + 1) ≠ none)
    (fails : originalDocument.page (passes + 1) = none) (drawing : Drawing) :
    overlayPages P originalDocument height fields drawing =
      .error ((drawing.after P height fields passes).call
        (GraphicsContext.beginPage P.nestedPage P.pageCTM)) := by
  have loop := IndexLoop.foldlM_range_error (drawing.after P height fields) inside
    (fun k lt => overlayPage_after (load k lt) drawing)
    (overlayPage_error fails (drawing.after P height fields passes))
  rw [Drawing.after_zero] at loop
  exact loop

end Loop

/-! ## The call -/

/-- The document is there, has a url, and opens. -/
def Opens (docModel : DocumentModel) (originalDocument : CGPDFDocument) : Prop :=
  ∃ url, addOverlayURL P.urlOfString docModel = some url ∧
    P.openPDF url = some originalDocument

section Call

variable {P} {docModel : DocumentModel} {originalDocument : CGPDFDocument}
  {firstPage : CGPDFPage} {graphics : Graphics}

theorem addOverlay_eq (opens : Opens P docModel originalDocument)
    (first : originalDocument.page 1 = some firstPage) (graphics : Graphics) :
    addOverlay P docModel graphics =
      some (exportPDF P originalDocument firstPage.mediaBox docModel
        (graphics.beginPDFContextToFile P (overlayPath P docModel))) := by
  obtain ⟨url, accepted, opened⟩ := opens
  simp [addOverlay, accepted, opened, first]

theorem addOverlay_eq_none (opens : Opens P docModel originalDocument)
    (first : originalDocument.page 1 = none) (graphics : Graphics) :
    addOverlay P docModel graphics = none := by
  obtain ⟨url, accepted, opened⟩ := opens
  simp [addOverlay, accepted, opened, first]

/-- There is no context to draw in. -/
theorem exportPDF_of_nil {pageSize : CGRect} (empty : graphics.stack = []) :
    exportPDF P originalDocument pageSize docModel graphics = ("", graphics) := by
  simp only [exportPDF, empty]

/-- The drawing the page loop starts from. -/
def startDrawing (P : Platform U) (context : GraphicsContext) (graphics : Graphics) : Drawing :=
  (Drawing.mk context graphics.marks graphics.calls).call
    (GraphicsContext.beginPage .endsOpen P.infoCTM)

/-- Every page loads. -/
theorem exportPDF_ok {pageSize : CGRect} {context : GraphicsContext}
    {below : List GraphicsContext} (current : graphics.stack = context :: below)
    (load : originalDocument.AllLoad) :
    exportPDF P originalDocument pageSize docModel graphics =
      (overlayPath P docModel, Graphics.endPDFContext P
        ⟨((startDrawing P context graphics).after P pageSize.height docModel.fieldsToFill
            originalDocument.numberOfPages).context :: below,
          ((startDrawing P context graphics).after P pageSize.height docModel.fieldsToFill
            originalDocument.numberOfPages).marks,
          ((startDrawing P context graphics).after P pageSize.height docModel.fieldsToFill
            originalDocument.numberOfPages).calls⟩) := by
  simp only [exportPDF, current, overlayPages_ok load]
  rfl

/-- A page does not. -/
theorem exportPDF_error {pageSize : CGRect} {context : GraphicsContext}
    {below : List GraphicsContext} (current : graphics.stack = context :: below)
    (inside : originalDocument.loadedPages < originalDocument.numberOfPages) :
    exportPDF P originalDocument pageSize docModel graphics =
      ("", ⟨(((startDrawing P context graphics).after P pageSize.height docModel.fieldsToFill
            originalDocument.loadedPages).call
              (GraphicsContext.beginPage P.nestedPage P.pageCTM)).context :: below,
          ((startDrawing P context graphics).after P pageSize.height docModel.fieldsToFill
            originalDocument.loadedPages).marks,
          (((startDrawing P context graphics).after P pageSize.height docModel.fieldsToFill
            originalDocument.loadedPages).call
              (GraphicsContext.beginPage P.nestedPage P.pageCTM)).calls⟩) := by
  have loop : overlayPages P originalDocument pageSize.height docModel.fieldsToFill
      (startDrawing P context graphics) = _ :=
    overlayPages_error inside (fun _ => CGPDFDocument.page_ne_none_of_lt)
      (CGPDFDocument.page_loadedPages inside) _
  rw [startDrawing] at loop
  simp only [exportPDF, current, loop]
  rfl

theorem endPDFContext_marks (graphics : Graphics) :
    (Graphics.endPDFContext P graphics).marks = graphics.marks := by
  unfold Graphics.endPDFContext
  split
  · rfl
  · split <;> rfl

theorem overlayPath_ne_empty : overlayPath P docModel ≠ "" := by
  simp [overlayPath, String.append_eq_empty_iff]

/-- **What a call draws**: the passes up to the first page that does not load, or
none where there is no context.  The path is returned after the last page only. -/
theorem exportPDF_marks (P : Platform U) (originalDocument : CGPDFDocument) (pageSize : CGRect)
    (docModel : DocumentModel) (graphics : Graphics) :
    ∃ passes context,
      (exportPDF P originalDocument pageSize docModel graphics).2.marks =
          graphics.marks ++ passMarks P pageSize.height docModel.fieldsToFill context passes ∧
        ((exportPDF P originalDocument pageSize docModel graphics).1 ≠ "" →
          passes = originalDocument.numberOfPages ∧
            (exportPDF P originalDocument pageSize docModel graphics).1 =
              overlayPath P docModel) := by
  cases current : graphics.stack with
  | nil =>
      rw [exportPDF_of_nil current]
      exact ⟨0, ⟨.other, .identity, [], 0, 0⟩, by simp [passMarks], fun ne => absurd rfl ne⟩
  | cons context below =>
      rcases Nat.lt_or_eq_of_le originalDocument.loadedPages_le with inside | all
      · rw [exportPDF_error current inside]
        exact ⟨_, _, rfl, fun ne => absurd rfl ne⟩
      · rw [exportPDF_ok current (CGPDFDocument.allLoad_iff.mpr all)]
        exact ⟨_, _, endPDFContext_marks _, fun _ => ⟨rfl, rfl⟩⟩

end Call

/-! ## The texts land on the fields -/

theorem fieldPos_eq_flipped (height : ℚ) (field : DocumentField) :
    fieldPos height field = field.rect.flipped height := rfl

/-- **Overlay text lands on the selected place.**  In every pass of every call, from
any graphics state and whatever transformation each page starts with, a text is
drawn where the rectangle of its field is on the page, and the transformation the
page was drawn under is in force again after the texts. -/
theorem overlay_lands_on_fields {docModel : DocumentModel} {originalDocument : CGPDFDocument}
    {firstPage : CGPDFPage} (opens : Opens P docModel originalDocument)
    (first : originalDocument.page 1 = some firstPage)
    (standard : ∀ field ∈ docModel.fieldsToFill, field.rect.Standardized)
    (graphics : Graphics) :
    ∃ path graphics', addOverlay P docModel graphics = some (path, graphics') ∧
      ∃ (passes : ℕ) (drawn texts restored : ℕ → CGAffineTransform),
        graphics'.marks = graphics.marks ++
            .beginPDFContextToFile (overlayPath P docModel)
              (P.creates (overlayPath P docModel)) ::
            (List.range passes).flatMap (fun k =>
              .drawPDFPage (k + 1) (drawn k) ::
                (docModel.fieldsToFill.map fun field =>
                  .drawText (field.fillWith.getD "") (fieldPos firstPage.mediaBox.height field)
                    (texts k)) ++
                [.restoreGState (restored k)]) ∧
          (path ≠ "" → passes = originalDocument.numberOfPages) ∧
          ∀ k < passes, restored k = drawn k ∧
            ∀ field ∈ docModel.fieldsToFill,
              (texts k).region (fieldPos firstPage.mediaBox.height field).points =
                (drawn k).region field.rect.points := by
  have call := addOverlay_eq opens first graphics
  obtain ⟨passes, context, marks, complete⟩ := exportPDF_marks P originalDocument
    firstPage.mediaBox docModel (graphics.beginPDFContextToFile P (overlayPath P docModel))
  generalize exportPDF P originalDocument firstPage.mediaBox docModel
    (graphics.beginPDFContextToFile P (overlayPath P docModel)) = result at call marks complete
  let drawn (k : ℕ) : CGAffineTransform := (pageContext P firstPage.mediaBox.height
    (contextAfter P firstPage.mediaBox.height context k)).ctm
  refine ⟨result.1, result.2, call, passes, drawn,
    fun k => (drawn k).flipped firstPage.mediaBox.height, drawn, ?_, fun returned =>
      (complete returned).1, ?_⟩
  · rw [marks, Graphics.beginPDFContextToFile, List.append_assoc]
    rfl
  · intro k _
    refine ⟨rfl, ?_⟩
    intro field mem
    rw [fieldPos_eq_flipped]
    exact region_flip (standard field mem) _ _

/-- A platform with one PDF, which can create any file; a new page keeps the
transformation. -/
def samplePlatform (pages : List (Option CGPDFPage)) : Platform String where
  urlOfString := some
  openPDF _ := some ⟨pages⟩
  paths := ["/var/mobile/Documents"]
  paths_ne_nil := List.cons_ne_nil _ _
  creates _ := true
  contextCTM := .identity
  infoCTM _ := .identity
  pageCTM context := context.ctm
  nestedPage := .nests
  endContextEndsPages := true

/-- A page of size A4. -/
def samplePage : CGPDFPage := ⟨.make 0 0 595 842⟩

def sampleDocument (name : String) (fields : List DocumentField) : DocumentModel where
  id := "d"
  name := name
  url := some "a.pdf"
  cdID := "1"
  fieldsToFill := fields

theorem opens_sampleDocument (pages : List (Option CGPDFPage)) (name : String)
    (fields : List DocumentField) :
    Opens (samplePlatform pages) (sampleDocument name fields) ⟨pages⟩ :=
  ⟨"a.pdf", rfl, rfl⟩

/-- A filled field. -/
def sampleField : DocumentField where
  rect := .make 70 765 99 19
  description := "ФИО"
  fillWith := some "Анна"
  type := .namesurname

theorem overlay_lands_on_one_field :
    ∃ path graphics', addOverlay (samplePlatform [some samplePage, some ⟨.make 0 0 100 100⟩])
        (sampleDocument "Заявление" [sampleField]) ⟨[], [], []⟩ = some (path, graphics') ∧
      path = "/var/mobile/Documents/Заявление.pdf" ∧
      ∃ drawn texts restored : ℕ → CGAffineTransform,
        graphics'.marks = .beginPDFContextToFile "/var/mobile/Documents/Заявление.pdf" true ::
          (List.range 2).flatMap (fun k =>
            [.drawPDFPage (k + 1) (drawn k),
              .drawText "Анна" (fieldPos samplePage.mediaBox.height sampleField) (texts k),
              .restoreGState (restored k)]) ∧
        ∀ k < 2, restored k = drawn k ∧
          (texts k).region (fieldPos samplePage.mediaBox.height sampleField).points =
            (drawn k).region sampleField.rect.points := by
  obtain ⟨path, graphics', call, passes, drawn, texts, restored, marks, all, lands⟩ :=
    overlay_lands_on_fields _
      (opens_sampleDocument [some samplePage, some ⟨.make 0 0 100 100⟩] "Заявление"
        [sampleField])
      rfl (by decide +kernel) ⟨[], [], []⟩
  have returned : path = "/var/mobile/Documents/Заявление.pdf" := by
    have value := congrArg (Option.map Prod.fst) call
    have computed : (addOverlay (samplePlatform [some samplePage, some ⟨.make 0 0 100 100⟩])
        (sampleDocument "Заявление" [sampleField]) ⟨[], [], []⟩).map Prod.fst =
          some "/var/mobile/Documents/Заявление.pdf" := by
      decide +kernel
    exact (Option.some.inj (computed.symm.trans value)).symm
  obtain rfl := all (by rw [returned]; decide)
  refine ⟨path, graphics', call, returned, drawn, texts, restored, marks, ?_⟩
  intro k lt
  exact ⟨(lands k lt).1, (lands k lt).2 sampleField List.mem_cons_self⟩

/-! ## Every text on every page -/

/-- The text draws among marks, each with the number of the page drawn last before
it. -/
def labelDraws : ℕ → List Mark → List (ℕ × String × CGRect)
  | _, [] => []
  | _, .drawPDFPage number _ :: rest => labelDraws number rest
  | page, .drawText text pos _ :: rest => (page, text, pos) :: labelDraws page rest
  | page, .beginPDFContextToFile _ _ :: rest => labelDraws page rest
  | page, .restoreGState _ :: rest => labelDraws page rest

/-- A field as it is added, from a selection, and the text it is filled with. -/
structure Pick where
  selection : PDFSelection
  description : String
  type : FieldType
  fillWith : Option String

namespace Pick

/-- The field that `addField` and `appendField` make of the selection, filled. -/
def field (pick : Pick) : DocumentField :=
  { DocumentField.ofSelection pick.selection pick.description pick.type with
    fillWith := pick.fillWith }

/-- `selection.pages[0]`, the page the rectangle of the field was taken from. -/
def page (pick : Pick) : ℕ := pick.selection.pages.head pick.selection.pages_ne_nil

/-- The text draw that a field is for. -/
def draw (height : ℚ) (pick : Pick) : ℕ × String × CGRect :=
  (pick.page, pick.fillWith.getD "", fieldPos height pick.field)

end Pick

/-- **Each field is drawn once, on the page it was selected on**, and nothing else
is. -/
def DrawnOnce (height : ℚ) (picks : List Pick) (marks : List Mark) : Prop :=
  (labelDraws 0 marks).Perm (picks.map (Pick.draw height))

/-- The text draws of a pass, whatever comes after it. -/
theorem labelDraws_pageMarks (height : ℚ) (fields : List DocumentField) (page number : ℕ)
    (ctm : CGAffineTransform) (rest : List Mark) :
    labelDraws page (pageMarks height fields number ctm ++ rest) =
      (fields.map fun field => (number, field.fillWith.getD "", fieldPos height field)) ++
        labelDraws number rest := by
  have texts (fields : List DocumentField) :
      labelDraws number ((fields.map fun field => .drawText (field.fillWith.getD "")
          (fieldPos height field) (ctm.flipped height)) ++ .restoreGState ctm :: rest) =
        (fields.map fun field => (number, field.fillWith.getD "", fieldPos height field)) ++
          labelDraws number rest := by
    induction fields with
    | nil => rfl
    | cons field fields ih => exact congrArg (List.cons _) ih
  rw [pageMarks, List.cons_append, List.cons_append, labelDraws, List.append_assoc,
    List.singleton_append, texts]

/-- **Every pass draws every field.** -/
theorem labelDraws_passMarks (P : Platform U) (height : ℚ) (fields : List DocumentField)
    (context : GraphicsContext) (passes page : ℕ) :
    labelDraws page (passMarks P height fields context passes) =
      (List.range passes).flatMap fun k =>
        fields.map fun field => (k + 1, field.fillWith.getD "", fieldPos height field) := by
  rw [passMarks]
  generalize List.range passes = pages
  induction pages generalizing page with
  | nil => rfl
  | cons k rest ih =>
      rw [List.flatMap_cons, labelDraws_pageMarks, ih, List.flatMap_cons]

/-- The draws of a number of passes are those the fields are for exactly if there
are no fields, or one pass. -/
theorem draws_perm_iff {height : ℚ} {picks : List Pick} {numberOfPages : ℕ}
    (onPages : ∀ pick ∈ picks, 1 ≤ pick.page ∧ pick.page ≤ numberOfPages) (passes : ℕ)
    (some_or_all : passes = 0 ∨ passes = numberOfPages) :
    ((List.range passes).flatMap fun k => (picks.map Pick.field).map fun field =>
        (k + 1, field.fillWith.getD "", fieldPos height field)).Perm
        (picks.map (Pick.draw height)) ↔
      picks = [] ∨ passes = 1 := by
  constructor
  · intro same
    have lengths := same.length_eq
    simp only [List.length_flatMap, List.length_map, List.map_const', List.length_range,
      List.sum_replicate_nat] at lengths
    rcases Nat.eq_zero_or_pos picks.length with empty | pos
    · exact Or.inl (List.length_eq_zero_iff.mp empty)
    · exact Or.inr (Nat.eq_of_mul_eq_mul_right pos (lengths.trans (Nat.one_mul _).symm))
  · rintro (rfl | rfl)
    · simp
    · refine List.Perm.of_eq ?_
      have one : numberOfPages = 1 := by
        rcases some_or_all with zero | all
        · cases zero
        · exact all.symm
      simp only [List.range_one, List.flatMap_singleton, List.map_map]
      refine List.map_congr_left ?_
      intro pick mem
      have here : pick.page = 1 := by
        have bounds := onPages pick mem
        omega
      simp [Pick.draw, here, Pick.field]

/-- There is a context to draw in: the new one, or one there was before. -/
def HasContext (docModel : DocumentModel) (graphics : Graphics) : Prop :=
  P.creates (overlayPath P docModel) = true ∨ graphics.stack ≠ []

variable {P}

theorem stack_beginPDFContextToFile_eq_nil {docModel : DocumentModel} {graphics : Graphics} :
    (graphics.beginPDFContextToFile P (overlayPath P docModel)).stack = [] ↔
      ¬ HasContext P docModel graphics := by
  cases created : P.creates (overlayPath P docModel) <;>
    simp [Graphics.beginPDFContextToFile, HasContext, created]

/-- The text draws of a call over pages that all load: those of every page, or none
where there is no context. -/
theorem addOverlay_labelDraws {docModel : DocumentModel} {originalDocument : CGPDFDocument}
    {firstPage : CGPDFPage} (opens : Opens P docModel originalDocument)
    (load : ∀ i < originalDocument.numberOfPages, originalDocument.page (i + 1) ≠ none)
    (first : originalDocument.page 1 = some firstPage) (graphics : Graphics) :
    ∃ path graphics' new passes, addOverlay P docModel graphics = some (path, graphics') ∧
      graphics'.marks = graphics.marks ++ new ∧
      (labelDraws 0 new = (List.range passes).flatMap fun k =>
        docModel.fieldsToFill.map fun field =>
          (k + 1, field.fillWith.getD "", fieldPos firstPage.mediaBox.height field)) ∧
      (HasContext P docModel graphics → passes = originalDocument.numberOfPages) ∧
      (¬ HasContext P docModel graphics → passes = 0) := by
  have call := addOverlay_eq opens first graphics
  cases current : (graphics.beginPDFContextToFile P (overlayPath P docModel)).stack with
  | nil =>
      have without := stack_beginPDFContextToFile_eq_nil.mp current
      rw [exportPDF_of_nil current] at call
      exact ⟨_, _, [_], 0, call, rfl, rfl, fun has => absurd has without, fun _ => rfl⟩
  | cons context below =>
      have has : HasContext P docModel graphics := by
        by_contra without
        rw [stack_beginPDFContextToFile_eq_nil.mpr without] at current
        cases current
      rw [exportPDF_ok current load] at call
      refine ⟨_, _, .beginPDFContextToFile (overlayPath P docModel)
        (P.creates (overlayPath P docModel)) :: passMarks P firstPage.mediaBox.height
        docModel.fieldsToFill (context.beginPage .endsOpen P.infoCTM).1
          originalDocument.numberOfPages,
        originalDocument.numberOfPages, call, ?_, ?_, fun _ => rfl, fun no => absurd has no⟩
      · rw [endPDFContext_marks]
        exact List.append_assoc _ _ _
      · rw [labelDraws, labelDraws_passMarks]

/-- **The fields of a PDF whose pages load are drawn once each, on their own pages,
if and only if there are no fields, or there is one page and a context to draw
in.** -/
theorem drawnOnce_iff {docModel : DocumentModel} {originalDocument : CGPDFDocument}
    {firstPage : CGPDFPage} {picks : List Pick} (opens : Opens P docModel originalDocument)
    (load : ∀ i < originalDocument.numberOfPages, originalDocument.page (i + 1) ≠ none)
    (first : originalDocument.page 1 = some firstPage)
    (fields : docModel.fieldsToFill = picks.map Pick.field)
    (onPages : ∀ pick ∈ picks, 1 ≤ pick.page ∧ pick.page ≤ originalDocument.numberOfPages)
    (graphics : Graphics) :
    ∃ path graphics' new, addOverlay P docModel graphics = some (path, graphics') ∧
      graphics'.marks = graphics.marks ++ new ∧
      (DrawnOnce firstPage.mediaBox.height picks new ↔
        picks = [] ∨
          (originalDocument.numberOfPages = 1 ∧ HasContext P docModel graphics)) := by
  obtain ⟨path, graphics', new, passes, call, marks, draws, withContext, without⟩ :=
    addOverlay_labelDraws opens load first graphics
  refine ⟨path, graphics', new, call, marks, ?_⟩
  rw [DrawnOnce, draws, fields]
  by_cases has : HasContext P docModel graphics
  · obtain rfl := withContext has
    rw [draws_perm_iff onPages _ (Or.inr rfl)]
    simp [has]
  · obtain rfl := without has
    rw [draws_perm_iff onPages _ (Or.inl rfl)]
    simp [has]

/-- A field selected on a page. -/
def samplePick (page : ℕ) : Pick where
  selection :=
    ⟨[page], fun _ => .make 70 765 99 19, List.cons_ne_nil _ _, fun _ => by decide +kernel⟩
  description := "ФИО"
  type := .namesurname
  fillWith := some "Анна"

theorem two_pages_not_drawnOnce :
    ¬ ∀ (P : Platform String) (docModel : DocumentModel) (originalDocument : CGPDFDocument)
      (firstPage : CGPDFPage) (picks : List Pick) (graphics graphics' : Graphics)
      (path : String) (new : List Mark),
      Opens P docModel originalDocument →
      (∀ i < originalDocument.numberOfPages, originalDocument.page (i + 1) ≠ none) →
      originalDocument.page 1 = some firstPage →
      docModel.fieldsToFill = picks.map Pick.field →
      (∀ pick ∈ picks, 1 ≤ pick.page ∧ pick.page ≤ originalDocument.numberOfPages) →
      addOverlay P docModel graphics = some (path, graphics') →
      graphics'.marks = graphics.marks ++ new →
        DrawnOnce firstPage.mediaBox.height picks new := by
  intro all
  have opens := opens_sampleDocument [some samplePage, some samplePage] "Заявление"
    [(samplePick 2).field]
  have load : ∀ i < 2,
    CGPDFDocument.page ⟨[some samplePage, some samplePage]⟩ (i + 1) ≠ none := by
    decide
  have onPages : ∀ pick ∈ [samplePick 2], 1 ≤ pick.page ∧ pick.page ≤ 2 := by
    simp [samplePick, Pick.page]
  obtain ⟨path, graphics', new, passes, call, marks, draws, withContext, -⟩ :=
    addOverlay_labelDraws opens load rfl ⟨[], [], []⟩
  have once := all _ _ _ samplePage [samplePick 2] _ _ _ _ opens load rfl rfl onPages call marks
  obtain rfl := withContext (Or.inl rfl)
  have counted := once.length_eq
  rw [draws] at counted
  exact absurd counted (by decide)

theorem one_page_drawnOnce :
    ∃ path graphics' new, addOverlay (samplePlatform [some samplePage])
        (sampleDocument "Заявление" [(samplePick 1).field]) ⟨[], [], []⟩ =
          some (path, graphics') ∧
      graphics'.marks = [] ++ new ∧ DrawnOnce 842 [samplePick 1] new := by
  have opens := opens_sampleDocument [some samplePage] "Заявление" [(samplePick 1).field]
  have load : ∀ i < 1, CGPDFDocument.page ⟨[some samplePage]⟩ (i + 1) ≠ none := by
    decide
  have onPages : ∀ pick ∈ [samplePick 1], 1 ≤ pick.page ∧ pick.page ≤ 1 := by
    simp [samplePick, Pick.page]
  have fields : (sampleDocument "Заявление" [(samplePick 1).field]).fieldsToFill =
      [samplePick 1].map Pick.field := rfl
  obtain ⟨path, graphics', new, call, marks, drawn⟩ :=
    drawnOnce_iff opens load rfl fields onPages ⟨[], [], []⟩
  have height : samplePage.mediaBox.height = 842 := by decide +kernel
  rw [height] at drawn
  exact ⟨path, graphics', new, call, marks, drawn.mpr (Or.inr ⟨rfl, Or.inl rfl⟩)⟩

end DocumentRelay
