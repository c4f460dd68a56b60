import DocumentRelay.Lib.Components
import DocumentRelay.Overlay

/-!
# What an export leaves behind

Two things outlive a call of `addOverlay`: UIKit's stack of contexts, and a file.

The function ends its context on one of its ways out.  The `return ""` inside the
page loop leaves the context on the stack with the page begun, and a first page
that does not load traps.  The page begun before the loop is never ended by a call
of its own, so it depends on the platform whether it is over when the context is.
Without a context of its own the call works on the one of its caller: it closes a
PDF, and in any other every pass turns the vertical axis over once more than back.
`cleansUp_iff` says what is left when all this does no harm.

The file is named after the document, whose name is typed or downloaded and spliced
into the path as it is; a slash in it leads out of the Documents directory
(`export_directChild_iff`).
-/

namespace DocumentRelay

variable {U : Type} {P : Platform U}

/-! ## Cleaning up -/

/-- What a call did: the path it returned, the stack it left, and the marks and calls
it made. -/
def effect (before : Graphics) (result : String × Graphics) :
    String × List GraphicsContext × List Mark × List ContextCall :=
  (result.1, result.2.stack, result.2.marks.drop before.marks.length,
    result.2.calls.drop before.calls.length)

/-- **The call returns and has cleaned up**: the stack is what it was, with every
context as it was; as many pages are ended as were begun, and as many states restored
as were saved.  A later call does what it would have done without this one. -/
def CleansUp (P : Platform U) (docModel : DocumentModel) (graphics : Graphics) : Prop :=
  ∃ path graphics' calls, addOverlay P docModel graphics = some (path, graphics') ∧
    graphics'.stack = graphics.stack ∧
    graphics'.calls = graphics.calls ++ calls ∧
    calls.count .beginPage = calls.count .endPage ∧
    calls.count .saveGState = calls.count .restoreGState ∧
    ∀ later, (addOverlay P later graphics').map (effect graphics') =
      (addOverlay P later graphics).map (effect graphics)

/-! ## The stack is all a later call depends on -/

/-- Graphics with earlier marks and calls. -/
def Graphics.prepend (marks : List Mark) (calls : List ContextCall) (graphics : Graphics) :
    Graphics :=
  ⟨graphics.stack, marks ++ graphics.marks, calls ++ graphics.calls⟩

section Prepend

variable (marks : List Mark) (calls : List ContextCall) (graphics : Graphics)

theorem endPDFContext_prepend :
    (graphics.prepend marks calls).endPDFContext P =
      (graphics.endPDFContext P).prepend marks calls := by
  cases current : graphics.stack with
  | nil => simp [Graphics.endPDFContext, Graphics.prepend, current]
  | cons context below =>
      cases pdf : context.isPDF <;>
        simp [Graphics.endPDFContext, Graphics.prepend, current, pdf]

/-- The rest of a call goes on from what was drawn before, and looks at the stack
only. -/
theorem exportPDF_prepend (originalDocument : CGPDFDocument) (pageSize : CGRect)
    (docModel : DocumentModel) :
    exportPDF P originalDocument pageSize docModel (graphics.prepend marks calls) =
      ((exportPDF P originalDocument pageSize docModel graphics).1,
        (exportPDF P originalDocument pageSize docModel graphics).2.prepend marks calls) := by
  cases current : graphics.stack with
  | nil =>
      have current' : (graphics.prepend marks calls).stack = [] := current
      rw [exportPDF_of_nil current, exportPDF_of_nil current']
  | cons context below =>
      have current' : (graphics.prepend marks calls).stack = context :: below := current
      rcases Nat.lt_or_eq_of_le originalDocument.loadedPages_le with inside | all
      · rw [exportPDF_error current inside, exportPDF_error current' inside]
        simp [Graphics.prepend, startDrawing, Drawing.after, Drawing.call]
      · have load := CGPDFDocument.allLoad_iff.mpr all
        rw [exportPDF_ok current load, exportPDF_ok current' load, ← endPDFContext_prepend]
        simp [Graphics.prepend, startDrawing, Drawing.after, Drawing.call]

theorem addOverlay_prepend (docModel : DocumentModel) :
    addOverlay P docModel (graphics.prepend marks calls) =
      (addOverlay P docModel graphics).map fun result =>
        (result.1, result.2.prepend marks calls) := by
  have begun (path : String) : (graphics.prepend marks calls).beginPDFContextToFile P path =
      (graphics.beginPDFContextToFile P path).prepend marks calls := by
    simp [Graphics.beginPDFContextToFile, Graphics.prepend]
  cases accepted : addOverlayURL P.urlOfString docModel with
  | none => simp [addOverlay, accepted]
  | some url =>
      cases opened : P.openPDF url with
      | none => simp [addOverlay, accepted, opened]
      | some document =>
          cases first : document.page 1 with
          | none => simp [addOverlay, accepted, opened, first]
          | some firstPage =>
              simp [addOverlay, accepted, opened, first, begun, exportPDF_prepend]

end Prepend

/-- **On the same stack a call does the same.** -/
theorem effect_congr {graphics graphics' : Graphics} (same : graphics'.stack = graphics.stack)
    (later : DocumentModel) :
    (addOverlay P later graphics').map (effect graphics') =
      (addOverlay P later graphics).map (effect graphics) := by
  -- Both do what the call does with nothing drawn yet.
  have bare (graphics : Graphics) : (addOverlay P later graphics).map (effect graphics) =
      (addOverlay P later ⟨graphics.stack, [], []⟩).map (effect ⟨graphics.stack, [], []⟩) := by
    have whole : graphics =
        Graphics.prepend graphics.marks graphics.calls ⟨graphics.stack, [], []⟩ := by
      simp [Graphics.prepend]
    conv_lhs => rw [whole]
    rw [addOverlay_prepend, Option.map_map]
    congr 1
    funext result
    simp [effect, Graphics.prepend]
  rw [bare graphics', bare graphics, same]

/-! ## Counting pages and states -/

section Counting

variable (context : GraphicsContext) (height : ℚ)

/-- Begun and not ended is open. -/
theorem openPages_beginPage (nested : NestedPage)
    (start : GraphicsContext → CGAffineTransform) :
    context.openPages + (context.beginPage nested start).2.count .beginPage =
      (context.beginPage nested start).1.openPages +
        (context.beginPage nested start).2.count .endPage := by
  unfold GraphicsContext.beginPage
  split
  · split
    next closed => simp [closed]
    next => cases nested <;> simp
  · simp

theorem openPages_endPDFPage :
    context.openPages =
      context.endPDFPage.1.openPages + context.endPDFPage.2.count .endPage := by
  unfold GraphicsContext.endPDFPage
  split
  next ends =>
    simp only [List.count_singleton_self]
    omega
  next => simp

theorem count_endPDFPage {call : ContextCall} (other : call ≠ .endPage) :
    context.endPDFPage.2.count call = 0 := by
  unfold GraphicsContext.endPDFPage
  split <;> simp [Ne.symm other]

theorem count_beginPage {nested : NestedPage} {start : GraphicsContext → CGAffineTransform}
    {call : ContextCall} (begins : call ≠ .beginPage) (ends : call ≠ .endPage) :
    (context.beginPage nested start).2.count call = 0 := by
  unfold GraphicsContext.beginPage
  split
  · split
    · simp [Ne.symm begins]
    · cases nested <;> simp [Ne.symm begins, Ne.symm ends]
  · simp

/-- A pass opens as many pages as it begins more than it ends. -/
theorem openPages_pageCalls :
    context.openPages + (pageCalls P height context).count .beginPage =
      (pageContext P height context).endPDFPage.1.openPages +
        (pageCalls P height context).count .endPage := by
  have begun := openPages_beginPage context P.nestedPage P.pageCTM
  have ended := openPages_endPDFPage (pageContext P height context)
  have flipped : (pageContext P height context).openPages =
      (context.beginPage P.nestedPage P.pageCTM).1.openPages := rfl
  have none : (pageContext P height context).endPDFPage.2.count .beginPage = 0 :=
    count_endPDFPage _ (by decide)
  simp only [pageCalls, List.count_append, List.count_cons, none]
  simp only [beq_iff_eq, reduceCtorEq, if_false]
  omega

/-- A pass restores the state it saves. -/
theorem count_states_pageCalls :
    (pageCalls P height context).count .saveGState =
      (pageCalls P height context).count .restoreGState := by
  simp [pageCalls, count_beginPage, count_endPDFPage]

theorem openPages_passCalls (passes : ℕ) :
    context.openPages + (passCalls P height context passes).count .beginPage =
      (contextAfter P height context passes).openPages +
        (passCalls P height context passes).count .endPage := by
  induction passes with
  | zero => simp [passCalls, contextAfter]
  | succ passes ih =>
      have pass := openPages_pageCalls (P := P) (contextAfter P height context passes) height
      rw [passCalls] at ih ⊢
      simp only [List.range_succ, List.flatMap_append, List.flatMap_singleton,
        List.count_append,
        contextAfter]
      omega

theorem count_states_passCalls (passes : ℕ) :
    (passCalls P height context passes).count .saveGState =
      (passCalls P height context passes).count .restoreGState := by
  simp only [passCalls, List.count_flatMap]
  congr 1
  refine List.map_congr_left ?_
  intro k _
  exact count_states_pageCalls _ _

end Counting

/-! ## The context a call works on -/

section Context

variable {context : GraphicsContext} (height : ℚ)

/-- A context that is no PDF has no pages. -/
theorem beginPage_of_not_isPDF (nested : NestedPage)
    (start : GraphicsContext → CGAffineTransform)
    (plain : context.isPDF = false) : context.beginPage nested start = (context, []) := by
  simp [GraphicsContext.beginPage, plain]

theorem endPDFPage_of_not_isPDF (plain : context.isPDF = false) :
    context.endPDFPage = (context, []) := by
  simp [GraphicsContext.endPDFPage, plain]

theorem kind_beginPage (nested : NestedPage) (start : GraphicsContext → CGAffineTransform) :
    (context.beginPage nested start).1.kind = context.kind := by
  unfold GraphicsContext.beginPage
  split
  · split
    · rfl
    · cases nested <;> rfl
  · rfl

theorem isPDF_beginPage (nested : NestedPage) (start : GraphicsContext → CGAffineTransform) :
    (context.beginPage nested start).1.isPDF = context.isPDF := by
  rw [GraphicsContext.isPDF, kind_beginPage, GraphicsContext.isPDF]

theorem isPDF_endPDFPage : context.endPDFPage.1.isPDF = context.isPDF := by
  unfold GraphicsContext.endPDFPage
  split <;> rfl

/-- The passes do not change what kind of context it is. -/
theorem isPDF_contextAfter (passes : ℕ) :
    (contextAfter P height context passes).isPDF = context.isPDF := by
  induction passes with
  | zero => rfl
  | succ passes ih =>
      rw [contextAfter, isPDF_endPDFPage, ← ih]
      exact isPDF_beginPage _ _

/-- Pages are begun, and never fewer. -/
theorem pagesBegun_le_beginPage (nested : NestedPage)
    (start : GraphicsContext → CGAffineTransform) :
    context.pagesBegun ≤ (context.beginPage nested start).1.pagesBegun := by
  unfold GraphicsContext.beginPage
  split
  · split
    · exact Nat.le_succ _
    · cases nested
      · exact Nat.le_succ _
      · exact Nat.le_refl _
      · exact Nat.le_succ _
  · exact Nat.le_refl _

theorem pagesBegun_le_contextAfter (passes : ℕ) :
    context.pagesBegun ≤ (contextAfter P height context passes).pagesBegun := by
  induction passes with
  | zero => exact Nat.le_refl _
  | succ passes ih =>
      have ended : ∀ c : GraphicsContext, c.endPDFPage.1.pagesBegun = c.pagesBegun := by
        intro c
        unfold GraphicsContext.endPDFPage
        split <;> rfl
      rw [contextAfter, ended]
      exact ih.trans (pagesBegun_le_beginPage _ _)

/-- UIKit begins a page of a PDF whether or not one is open. -/
theorem pagesBegun_beginPage_endsOpen (start : GraphicsContext → CGAffineTransform)
    (pdf : context.isPDF = true) :
    (context.beginPage .endsOpen start).1.pagesBegun = context.pagesBegun + 1 := by
  simp only [GraphicsContext.beginPage, pdf, if_true]
  split <;> rfl

/-- **The page begun before the loop stays open where pages nest**, and is ended by the
first pass where they do not. -/
theorem openPages_contextAfter (pdf : context.isPDF = true) (one : context.openPages = 1)
    (passes : ℕ) :
    (contextAfter P height context (passes + 1)).openPages =
      if P.nestedPage = .nests then 1 else 0 := by
  have pass (c : GraphicsContext) (isPDF : c.isPDF = true) :
      (pageContext P height c).endPDFPage.1.openPages =
        if c.openPages ≠ 0 ∧ P.nestedPage = .nests then c.openPages else c.openPages - 1 := by
    have begun : (pageContext P height c).isPDF = true := (isPDF_beginPage _ _).trans isPDF
    have opened : (pageContext P height c).openPages =
        (c.beginPage P.nestedPage P.pageCTM).1.openPages := rfl
    simp only [GraphicsContext.endPDFPage, begun, true_and]
    rw [opened]
    simp only [GraphicsContext.beginPage, isPDF, if_true]
    by_cases closed : c.openPages = 0
    · simp [closed]
    · cases P.nestedPage <;> simp [closed]
  induction passes with
  | zero =>
      rw [contextAfter, contextAfter, pass _ pdf, one]
      simp
  | succ passes ih =>
      rw [contextAfter, pass _ ((isPDF_contextAfter height _).trans pdf), ih]
      by_cases nests : P.nestedPage = .nests <;> simp [nests]

/-- Turned over twice, the axis is as it was. -/
theorem flipped_flipped (context : GraphicsContext) :
    (context.flipped height).flipped height = context := by
  obtain ⟨kind, ⟨a, b, c, d, tx, ty⟩, saved, begun, isOpen⟩ := context
  simp only [GraphicsContext.flipped, GraphicsContext.translateBy, GraphicsContext.scaleBy,
    CGAffineTransform.translatedBy, CGAffineTransform.scaledBy, GraphicsContext.mk.injEq,
    CGAffineTransform.mk.injEq, true_and, and_true]
  refine ⟨?_, ?_, ?_, ?_, ?_, ?_⟩ <;> ring

/-- A context that is no PDF comes out of the passes with its axis turned over once
for each. -/
theorem contextAfter_of_not_isPDF (plain : context.isPDF = false) (passes : ℕ) :
    contextAfter P height context passes =
      if Even passes then context else context.flipped height := by
  induction passes with
  | zero => simp [contextAfter]
  | succ passes ih =>
      have plain' : (contextAfter P height context passes).isPDF = false :=
        (isPDF_contextAfter height passes).trans plain
      have drawn : pageContext P height (contextAfter P height context passes) =
          (contextAfter P height context passes).flipped height := by
        rw [pageContext, beginPage_of_not_isPDF _ _ plain']
      have still :
          (pageContext P height (contextAfter P height context passes)).isPDF = false := by
        rw [drawn]
        exact plain'
      rw [contextAfter, endPDFPage_of_not_isPDF still, drawn, ih]
      by_cases even : Even passes
      · simp [even, Nat.even_add_one]
      · simp [even, Nat.even_add_one, flipped_flipped]

/-- Only a transformation without a vertical axis is the same turned over. -/
theorem flipped_eq_self_iff :
    context.flipped height = context ↔ context.ctm.c = 0 ∧ context.ctm.d = 0 := by
  obtain ⟨kind, ⟨a, b, c, d, tx, ty⟩, saved, begun, isOpen⟩ := context
  simp only [GraphicsContext.flipped, GraphicsContext.translateBy, GraphicsContext.scaleBy,
    CGAffineTransform.translatedBy, CGAffineTransform.scaledBy, GraphicsContext.mk.injEq,
    CGAffineTransform.mk.injEq, true_and, and_true]
  constructor
  · rintro ⟨-, -, minusC, minusD, -, -⟩
    constructor <;> linarith
  · rintro ⟨rfl, rfl⟩
    simp

end Context

/-! ## The call -/

section Stack

variable {docModel : DocumentModel} {originalDocument : CGPDFDocument} {graphics : Graphics}

/-- A call that leaves the stack and a balanced log has cleaned up. -/
theorem cleansUp_of_stack {result : String × Graphics} {calls : List ContextCall}
    (call : addOverlay P docModel graphics = some result)
    (same : result.2.stack = graphics.stack) (log : result.2.calls = graphics.calls ++ calls)
    (pages : calls.count .beginPage = calls.count .endPage)
    (states : calls.count .saveGState = calls.count .restoreGState) :
    CleansUp P docModel graphics :=
  ⟨result.1, result.2, calls, call, same, log, pages, states, effect_congr same⟩

variable (docModel) (pageSize : CGRect) {context : GraphicsContext}
  {below : List GraphicsContext}

/-- Where every page loads, a current PDF context is closed, with as many pages not
ended as are open then and the platform leaves. -/
theorem exportPDF_closes (current : graphics.stack = context :: below)
    (pdf : context.isPDF = true) (load : originalDocument.AllLoad) :
    (exportPDF P originalDocument pageSize docModel graphics).2.stack = below ∧
      ∃ calls, (exportPDF P originalDocument pageSize docModel graphics).2.calls =
          graphics.calls ++ calls ∧
        context.openPages + calls.count .beginPage = calls.count .endPage +
          (if P.endContextEndsPages then 0 else
            (contextAfter P pageSize.height (context.beginPage .endsOpen P.infoCTM).1
              originalDocument.numberOfPages).openPages) ∧
        calls.count .saveGState = calls.count .restoreGState := by
  have last : (contextAfter P pageSize.height (context.beginPage .endsOpen P.infoCTM).1
      originalDocument.numberOfPages).isPDF = true := by
    rw [isPDF_contextAfter, isPDF_beginPage]
    exact pdf
  have begun := openPages_beginPage context .endsOpen P.infoCTM
  have passed := openPages_passCalls (P := P) (context.beginPage .endsOpen P.infoCTM).1
    pageSize.height originalDocument.numberOfPages
  have states := count_states_passCalls (P := P) (context.beginPage .endsOpen P.infoCTM).1
    pageSize.height originalDocument.numberOfPages
  rw [exportPDF_ok current load]
  simp only [Graphics.endPDFContext, Drawing.after, startDrawing, Drawing.call, last, if_true]
  refine ⟨trivial, _, by simp only [List.append_assoc]; rfl, ?_, ?_⟩
  · simp only [List.count_append]
    cases P.endContextEndsPages
    · simp only [Bool.false_eq_true, if_false, List.count_nil]
      omega
    · simp only [if_true, List.count_replicate_self, List.count_replicate]
      simp only [beq_iff_eq, reduceCtorEq, if_false]
      omega
  · have none : ∀ (ends : Bool) (n : ℕ) (c : ContextCall), c ≠ .endPage →
        (if ends then List.replicate n ContextCall.endPage else []).count c = 0 := by
      intro ends n c other
      cases ends <;> simp [List.count_replicate, Ne.symm other]
    simp only [List.count_append, states, none, ne_eq, reduceCtorEq, not_false_eq_true]
    rw [count_beginPage _ (by decide) (by decide), count_beginPage _ (by decide) (by decide)]

/-- Where a page does not, it stays, with a page more begun. -/
theorem exportPDF_leaves (current : graphics.stack = context :: below)
    (pdf : context.isPDF = true) (fails : ¬ originalDocument.AllLoad) :
    ∃ left, (exportPDF P originalDocument pageSize docModel graphics).2.stack = left :: below ∧
      context.pagesBegun < left.pagesBegun := by
  have inside : originalDocument.loadedPages < originalDocument.numberOfPages :=
    lt_of_le_of_ne originalDocument.loadedPages_le fun all =>
      fails (CGPDFDocument.allLoad_iff.mpr all)
  rw [exportPDF_error current inside]
  refine ⟨_, rfl, ?_⟩
  simp only [Drawing.call, Drawing.after, startDrawing]
  calc context.pagesBegun
    _ < (context.beginPage .endsOpen P.infoCTM).1.pagesBegun := by
        rw [pagesBegun_beginPage_endsOpen _ pdf]
        exact Nat.lt_succ_self _
    _ ≤ (contextAfter P pageSize.height (context.beginPage .endsOpen P.infoCTM).1
          originalDocument.loadedPages).pagesBegun := pagesBegun_le_contextAfter _ _
    _ ≤ _ := pagesBegun_le_beginPage _ _

variable (P) (originalDocument) in
/-- A context that is no PDF stays, turned over once for each page that loads. -/
theorem exportPDF_turns (current : graphics.stack = context :: below)
    (plain : context.isPDF = false) :
    (exportPDF P originalDocument pageSize docModel graphics).2.stack =
        (if Even originalDocument.loadedPages then context
          else context.flipped pageSize.height) :: below ∧
      ∃ calls, (exportPDF P originalDocument pageSize docModel graphics).2.calls =
          graphics.calls ++ calls ∧
        calls.count .beginPage = calls.count .endPage ∧
        calls.count .saveGState = calls.count .restoreGState := by
  have after := contextAfter_of_not_isPDF (P := P) pageSize.height plain
    originalDocument.loadedPages
  have plain' : (contextAfter P pageSize.height context originalDocument.loadedPages).isPDF =
      false := (isPDF_contextAfter _ _).trans plain
  have pages :=
    openPages_passCalls (P := P) context pageSize.height originalDocument.loadedPages
  have states := count_states_passCalls (P := P) context pageSize.height
    originalDocument.loadedPages
  have same : (contextAfter P pageSize.height context originalDocument.loadedPages).openPages =
      context.openPages := by
    rw [after]
    split <;> rfl
  have start : startDrawing P context graphics = ⟨context, graphics.marks, graphics.calls⟩ := by
    simp [startDrawing, Drawing.call, beginPage_of_not_isPDF _ _ plain]
  have balanced : (passCalls P pageSize.height context originalDocument.loadedPages).count
      .beginPage = (passCalls P pageSize.height context originalDocument.loadedPages).count
        .endPage := by
    omega
  rcases Nat.lt_or_eq_of_le originalDocument.loadedPages_le with inside | all
  · rw [exportPDF_error current inside, start]
    simp only [Drawing.after, Drawing.call, beginPage_of_not_isPDF _ _ plain', List.append_nil]
    exact ⟨by rw [after], _, rfl, balanced, states⟩
  · rw [exportPDF_ok current (CGPDFDocument.allLoad_iff.mpr all), start, ← all]
    simp only [Graphics.endPDFContext, Drawing.after, plain', Bool.false_eq_true, if_false]
    exact ⟨by rw [after], _, rfl, balanced, states⟩

end Stack

section CleansUp

variable {docModel : DocumentModel} {originalDocument : CGPDFDocument} {firstPage : CGPDFPage}
  {graphics : Graphics}

/-- The call with a context of its own: it cleans up exactly if every page loads, and
the page begun before the loop is over when the context is. -/
theorem cleansUp_of_created (opens : Opens P docModel originalDocument)
    (first : originalDocument.page 1 = some firstPage)
    (created : P.creates (overlayPath P docModel) = true) :
    CleansUp P docModel graphics ↔
      originalDocument.AllLoad ∧
        (P.nestedPage = .nests → P.endContextEndsPages = true) := by
  let own : GraphicsContext := ⟨.pdf (overlayPath P docModel), P.contextCTM, [], 0, 0⟩
  have current : (graphics.beginPDFContextToFile P (overlayPath P docModel)).stack =
      own :: graphics.stack := by
    simp [Graphics.beginPDFContextToFile, created, own]
  have call := addOverlay_eq opens first graphics
  by_cases load : originalDocument.AllLoad
  · -- The pages that are still open when the context is closed.
    obtain ⟨pages, positive⟩ : ∃ pages, originalDocument.numberOfPages = pages + 1 := by
      refine Nat.exists_eq_succ_of_ne_zero ?_
      intro empty
      have missing : originalDocument.page 1 = none := by
        simp [CGPDFDocument.page, List.length_eq_zero_iff.mp empty]
      rw [first] at missing
      cases missing
    have isOpen : (contextAfter P firstPage.mediaBox.height
        (own.beginPage .endsOpen P.infoCTM).1 originalDocument.numberOfPages).openPages =
          if P.nestedPage = .nests then 1 else 0 := by
      rw [positive]
      exact openPages_contextAfter _ rfl rfl pages
    obtain ⟨stack, calls, log, balance, states⟩ := exportPDF_closes (P := P) docModel
      firstPage.mediaBox current rfl load
    rw [isOpen] at balance
    simp only [load, true_and]
    constructor
    · rintro ⟨path, graphics', calls', call', -, log', pages', -, -⟩ nests
      rw [call] at call'
      rw [Option.some.inj call'] at log
      obtain rfl : calls' = calls := List.append_cancel_left (log'.symm.trans log)
      by_contra leaves
      simp only [own, nests, if_true, leaves, if_false] at balance
      omega
    · intro closes
      refine cleansUp_of_stack call stack log ?_ states
      by_cases nests : P.nestedPage = .nests
      · simp only [own, closes nests, if_true] at balance
        omega
      · simp only [own, nests, if_false, ite_self] at balance
        omega
  · simp only [load, false_and, iff_false]
    rintro ⟨path, graphics', calls, call', same, -⟩
    obtain ⟨left, stack, -⟩ := exportPDF_leaves (P := P) docModel firstPage.mediaBox current rfl
      load
    rw [call] at call'
    rw [Option.some.inj call'] at stack
    -- One context more than there was.
    have lengths := congrArg List.length (same.symm.trans stack)
    simp at lengths

/-- The call without one: it cleans up exactly if there is no current context, or it is
no PDF and is turned over an even number of times. -/
theorem cleansUp_of_not_created (opens : Opens P docModel originalDocument)
    (first : originalDocument.page 1 = some firstPage)
    (refused : P.creates (overlayPath P docModel) = false) :
    CleansUp P docModel graphics ↔
      ∀ context, graphics.stack.head? = some context → context.isPDF = false ∧
        (Even originalDocument.loadedPages ∨ context.ctm.c = 0 ∧ context.ctm.d = 0) := by
  have unchanged : (graphics.beginPDFContextToFile P (overlayPath P docModel)).stack =
      graphics.stack := by
    simp [Graphics.beginPDFContextToFile, refused]
  have call := addOverlay_eq opens first graphics
  cases current : graphics.stack with
  | nil =>
      rw [current] at unchanged
      simp only [List.head?_nil, reduceCtorEq, false_implies, implies_true, iff_true]
      rw [exportPDF_of_nil unchanged] at call
      exact cleansUp_of_stack call (unchanged.trans current.symm)
        (List.append_nil _).symm rfl rfl
  | cons context below =>
      simp only [List.head?_cons, Option.some.injEq, forall_eq']
      rw [current] at unchanged
      cases kind : context.isPDF with
      | false =>
          obtain ⟨stack, calls, log, pages, states⟩ := exportPDF_turns P docModel
            originalDocument firstPage.mediaBox unchanged kind
          have turned : (if Even originalDocument.loadedPages then context
              else context.flipped firstPage.mediaBox.height) = context ↔
                (Even originalDocument.loadedPages ∨ context.ctm.c = 0 ∧
                  context.ctm.d = 0) := by
            by_cases even : Even originalDocument.loadedPages
            · simp [even]
            · simp [even, flipped_eq_self_iff]
          rw [← turned]
          simp only [true_and]
          constructor
          · rintro ⟨path, graphics', calls', call', same, -⟩
            rw [call] at call'
            rw [Option.some.inj call'] at stack
            exact (List.cons.inj (stack.symm.trans (same.trans current))).1
          · intro back
            rw [back] at stack
            exact cleansUp_of_stack call (stack.trans current.symm) log pages states
      | true =>
          simp only [reduceCtorEq, false_and, iff_false]
          rintro ⟨path, graphics', calls, call', same, -⟩
          rw [call] at call'
          by_cases load : originalDocument.AllLoad
          · -- The context that was there is closed.
            have stack := (exportPDF_closes (P := P) docModel firstPage.mediaBox unchanged
              kind load).1
            rw [Option.some.inj call'] at stack
            have lengths := congrArg List.length (stack.symm.trans (same.trans current))
            simp at lengths
          · -- A page of it is begun that was not.
            obtain ⟨left, stack, more⟩ := exportPDF_leaves (P := P) docModel
              firstPage.mediaBox unchanged kind load
            rw [Option.some.inj call'] at stack
            rw [(List.cons.inj (stack.symm.trans (same.trans current))).1] at more
            exact lt_irrefl _ more

/-- **An export cleans up if and only if the first page loads and, where it gets a
context of its own, all pages do and the page begun before the loop is over when the
context is; where it gets none, the current context is no PDF and comes out with its
axis as it was.** -/
theorem cleansUp_iff (opens : Opens P docModel originalDocument) (graphics : Graphics) :
    CleansUp P docModel graphics ↔
      originalDocument.page 1 ≠ none ∧
        (P.creates (overlayPath P docModel) = true → originalDocument.AllLoad ∧
          (P.nestedPage = .nests → P.endContextEndsPages = true)) ∧
        (P.creates (overlayPath P docModel) = false →
          ∀ context, graphics.stack.head? = some context → context.isPDF = false ∧
            (Even originalDocument.loadedPages ∨ context.ctm.c = 0 ∧ context.ctm.d = 0)) := by
  cases first : originalDocument.page 1 with
  | none =>
      simp only [ne_eq, not_true_eq_false, false_and, iff_false]
      rintro ⟨path, graphics', calls, call, -⟩
      rw [addOverlay_eq_none opens first] at call
      cases call
  | some firstPage =>
      cases created : P.creates (overlayPath P docModel) with
      | true => simp [cleansUp_of_created opens first created]
      | false => simp [cleansUp_of_not_created opens first created]

end CleansUp

theorem failing_page_not_cleansUp :
    ¬ ∀ (P : Platform String) (docModel : DocumentModel) (originalDocument : CGPDFDocument)
      (graphics : Graphics), Opens P docModel originalDocument →
        CleansUp P docModel graphics := by
  intro all
  have opens := opens_sampleDocument [some samplePage, none] "Заявление" []
  have load := ((cleansUp_of_created opens rfl rfl).mp (all _ _ _ ⟨[], [], []⟩ opens)).1
  exact load 1 (by decide) rfl

theorem loading_pages_cleansUp :
    CleansUp (samplePlatform [some samplePage, some samplePage]) (sampleDocument "Заявление" [])
      ⟨[⟨.other, .identity, [], 0, 0⟩], [], []⟩ :=
  (cleansUp_iff (opens_sampleDocument _ _ _) _).mpr
    ⟨by decide, fun _ => ⟨(by decide : ∀ i < 2, CGPDFDocument.page
      ⟨[some samplePage, some samplePage]⟩ (i + 1) ≠ none), fun _ => rfl⟩, by decide⟩

/-! ## The file -/

/-- **The path is that of a direct child of a directory**: its components are those
of the directory and the file name, and it leads there. -/
structure DirectChild (directory fileName path : String) : Prop where
  components : SlashPath.components path = SlashPath.components directory ++ [fileName]
  resolve : SlashPath.resolve (SlashPath.components path) =
    SlashPath.resolve (SlashPath.components directory) ++ [fileName]

/-- A file name is no dot component. -/
theorem overlayFileName_notMem (docModel : DocumentModel) :
    overlayFileName docModel ∉ ["", ".", ".."] := by
  intro mem
  have long : (overlayFileName docModel).length = docModel.name.length + 4 :=
    String.length_append _ _
  have short : ∀ name ∈ ["", ".", ".."], name.length < 4 := by decide
  exact absurd (short _ mem) (by omega)

theorem slash_mem_overlayFileName (docModel : DocumentModel) :
    '/' ∈ (overlayFileName docModel).toList ↔ '/' ∈ docModel.name.toList := by
  simp [overlayFileName]

/-- **The file of an export is a direct child of the Documents directory exactly if
the document's name has no slash.** -/
theorem directChild_overlayPath_iff (docModel : DocumentModel) :
    DirectChild (documentsDirectory P) (overlayFileName docModel) (overlayPath P docModel) ↔
      '/' ∉ docModel.name.toList := by
  have split := SlashPath.components_append_slash_eq_iff (documentsDirectory P)
    (overlayFileName docModel)
  rw [slash_mem_overlayFileName] at split
  constructor
  · intro child
    exact split.mp child.components
  · intro noSlash
    have parts : SlashPath.components (overlayPath P docModel) =
        SlashPath.components (documentsDirectory P) ++ [overlayFileName docModel] :=
      split.mpr noSlash
    refine ⟨parts, ?_⟩
    rw [parts]
    exact SlashPath.resolve_append_singleton _ (overlayFileName_notMem docModel)

/-- The one file a call asks for, and the path it returns if it returns one. -/
theorem addOverlay_paths {docModel : DocumentModel} {originalDocument : CGPDFDocument}
    {graphics graphics' : Graphics} {path : String} {new : List Mark}
    (opens : Opens P docModel originalDocument)
    (call : addOverlay P docModel graphics = some (path, graphics'))
    (marks : graphics'.marks = graphics.marks ++ new) :
    (∀ file created, .beginPDFContextToFile file created ∈ new ↔
        file = overlayPath P docModel ∧ created = P.creates (overlayPath P docModel)) ∧
      (path ≠ "" → path = overlayPath P docModel) := by
  cases first : originalDocument.page 1 with
  | none =>
      rw [addOverlay_eq_none opens first] at call
      cases call
  | some firstPage =>
      rw [addOverlay_eq opens first] at call
      obtain ⟨passes, context, drawn, returned⟩ := exportPDF_marks P originalDocument
        firstPage.mediaBox docModel (graphics.beginPDFContextToFile P (overlayPath P docModel))
      rw [Option.some.inj call] at drawn returned
      refine ⟨?_, fun ne => (returned ne).2⟩
      have issued : new = .beginPDFContextToFile (overlayPath P docModel)
          (P.creates (overlayPath P docModel)) ::
            passMarks P firstPage.mediaBox.height docModel.fieldsToFill context passes := by
        rw [marks, Graphics.beginPDFContextToFile, List.append_assoc] at drawn
        exact List.append_cancel_left drawn
      intro file created
      rw [issued, List.mem_cons, Mark.beginPDFContextToFile.injEq]
      simp [passMarks, pageMarks]

/-- **An export stays in the Documents directory if and only if the document's name
has no slash.**  The file it asks for is then a direct child of the directory, and so
is the path it returns, if it returns one. -/
theorem export_directChild_iff {docModel : DocumentModel} {originalDocument : CGPDFDocument}
    {graphics graphics' : Graphics} {path : String} {new : List Mark}
    (opens : Opens P docModel originalDocument)
    (call : addOverlay P docModel graphics = some (path, graphics'))
    (marks : graphics'.marks = graphics.marks ++ new) :
    ((∀ file created, .beginPDFContextToFile file created ∈ new →
        DirectChild (documentsDirectory P) (overlayFileName docModel) file) ∧
      (path ≠ "" → DirectChild (documentsDirectory P) (overlayFileName docModel) path)) ↔
      '/' ∉ docModel.name.toList := by
  obtain ⟨files, returned⟩ := addOverlay_paths opens call marks
  rw [← directChild_overlayPath_iff (P := P)]
  constructor
  · rintro ⟨asked, -⟩
    exact asked _ _ ((files _ _).mpr ⟨rfl, rfl⟩)
  · intro child
    refine ⟨?_, ?_⟩
    · intro file created mem
      rw [((files file created).mp mem).1]
      exact child
    · intro ne
      rw [returned ne]
      exact child

theorem dotted_name_not_directChild :
    ¬ ∀ (P : Platform String) (docModel : DocumentModel) (originalDocument : CGPDFDocument)
      (graphics graphics' : Graphics) (path : String), Opens P docModel originalDocument →
      addOverlay P docModel graphics = some (path, graphics') → path ≠ "" →
        DirectChild (documentsDirectory P) (overlayFileName docModel) path := by
  intro all
  have opens := opens_sampleDocument [some samplePage] "../Library/x" []
  have load : CGPDFDocument.AllLoad ⟨[some samplePage]⟩ := (by decide : ∀ i < 1, _)
  have call := addOverlay_eq opens rfl ⟨[], [], []⟩
  rw [exportPDF_ok rfl load] at call
  have child := all _ _ _ _ _ _ opens call overlayPath_ne_empty
  exact (directChild_overlayPath_iff _).mp child (by decide)

theorem plain_name_directChild :
    ∃ path graphics', addOverlay (samplePlatform [some samplePage])
        (sampleDocument "Заявление" []) ⟨[], [], []⟩ = some (path, graphics') ∧
      (path ≠ "" → DirectChild "/var/mobile/Documents" "Заявление.pdf" path) := by
  have opens := opens_sampleDocument [some samplePage] "Заявление" []
  have call := addOverlay_eq opens rfl ⟨[], [], []⟩
  generalize exportPDF _ _ _ _ _ = result at call
  have stays := (export_directChild_iff opens call (List.nil_append _).symm).mpr (by decide)
  exact ⟨result.1, result.2, call, stays.2⟩

end DocumentRelay
