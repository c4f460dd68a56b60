import DocumentRelay.Identity

/-!
# Opening a document

`PDFRelay.body` and `addOverlay` force unwrap the `URL` they make of a document's
url, so a listed document whose url `URL(string:)` refuses traps the app when it
is opened or exported, and again after every relaunch.

Documents enter the lists by `create`, by `downloadDocument` and by
`loadDocuments`.  The download skips the empty url; `create` checks nothing.
`listed_documents_open` says what is enough: every url that comes in by the first
two is one `URL(string:)` accepts.  `loadDocuments` brings none of its own.

`URL(string:)` is a parameter: what it accepts is not the app's.
-/

namespace DocumentRelay

variable {F : Foundation} {U : Type} (urlOfString : String → Option U)

/-- The `URL` of `PDFRelay.body`; `none` is the trap of `URL(string:)!`. -/
def PDFRelay.bodyURL (document : DocumentModel) : Option U :=
  urlOfString (document.url.getD "")

/-- The `URL` of `addOverlay`; `none` is the trap of `url!` or of the cast of the
result. -/
def addOverlayURL (docModel : DocumentModel) : Option U := do
  let url ← docModel.url
  urlOfString url

/-- **No listed document traps** when it is opened or exported. -/
def AllOpen (env : GlobalEnviroment) : Prop :=
  ∀ document ∈ env.listed,
    (PDFRelay.bodyURL urlOfString document).isSome ∧ (addOverlayURL urlOfString document).isSome

/-- The urls an operation brings in are accepted. -/
def Operation.BringsURL : Operation → Prop
  | .create _ _ url _ => (urlOfString url).isSome
  | .download key server =>
      stringAttribute (snapshot server key).asDictionary "url" = "" ∨
        (urlOfString (stringAttribute (snapshot server key).asDictionary "url")).isSome
  | _ => True

/-- The same, for the operation of an event. -/
def BringsURL (_ : GlobalEnviroment) : Event → Prop
  | .complete op _ => op.BringsURL urlOfString
  | .crash op .. => op.BringsURL urlOfString

/-- The url is there and accepted. -/
def Accepted (url : Option String) : Prop := ∃ text, url = some text ∧ (urlOfString text).isSome

/-- Every url of the app is accepted. -/
structure UrlInv (env : GlobalEnviroment) : Prop where
  rows : ∀ row ∈ env.rows.documents, Accepted urlOfString row.url
  committed : ∀ row ∈ env.committedRows.documents, Accepted urlOfString row.url
  listed : ∀ document ∈ env.listed, Accepted urlOfString document.url

variable {urlOfString}

/-- The inserted row has the url that was brought in. -/
theorem accepted_inserted {env : GlobalEnviroment} {op : Operation} {row : CDDocumentModel}
    (brings : op.BringsURL urlOfString) (new : op.inserted F env = some row) :
    Accepted urlOfString row.url := by
  cases op with
  | create id name url fields =>
      obtain rfl := Option.some.inj new
      exact ⟨url, rfl, brings⟩
  | download key server =>
      rw [Operation.inserted] at new
      split at new
      · rename_i url
        obtain rfl := Option.some.inj new
        exact ⟨_, rfl, brings.resolve_left url⟩
      · cases new
  | appendField docCDId selection description type => cases new
  | deleteLoaded document fetched => cases new
  | deleteCreated document fetched => cases new
  | removeField i offsets fetched => cases new
  | reload fetched now => cases new

theorem accepted_savePoint {env : GlobalEnviroment} {op : Operation} {rows' : Rows}
    (inv : UrlInv urlOfString env) (brings : op.BringsURL urlOfString)
    (point : WorkingCopy.SavePoint applyEdit (op.actions F env) env.rows rows') :
    ∀ row ∈ rows'.documents, Accepted urlOfString row.url := by
  intro row mem
  rcases documents_of_savePoint point with old | ⟨new, inserted, eq⟩
  · exact inv.rows row (old.subset mem)
  · rw [eq] at mem
    rcases List.mem_append.mp mem with old | last
    · exact inv.rows row old
    · obtain rfl := List.mem_singleton.mp last
      exact accepted_inserted brings inserted

/-- A document built from an accepted row is accepted. -/
theorem Accepted.of_heads {row : CDDocumentModel} {document : DocumentModel}
    (accepted : Accepted urlOfString row.url) (head : row.Heads document) :
    Accepted urlOfString document.url := by
  obtain ⟨text, known, ok⟩ := accepted
  refine ⟨text, ?_, ok⟩
  rw [← head.2, DocumentModel.ofRow, known]
  rfl

theorem accepted_committed {env : GlobalEnviroment} {op : Operation}
    (inv : UrlInv urlOfString env) (brings : op.BringsURL urlOfString) (ok : ℕ → Bool) (k : ℕ) :
    ∀ row ∈ (op.interrupted F ok k env).committedRows.documents,
      Accepted urlOfString row.url := by
  rcases WorkingCopy.exec_committed applyEdit ok ((op.actions F env).take k)
    env.managedObjectContext with same | point
  · have committed : (op.interrupted F ok k env).committedRows = env.committedRows := same
    rw [committed]
    exact inv.committed
  · exact accepted_savePoint inv brings point.of_take

theorem UrlInv.after {env : GlobalEnviroment} {op : Operation} (inv : UrlInv urlOfString env)
    (enabled : op.Enabled env) (brings : op.BringsURL urlOfString) (ok : ℕ → Bool) :
    UrlInv urlOfString (op.after F ok env) where
  rows := by
    rw [GlobalEnviroment.rows, Operation.after, WorkingCopy.exec_working]
    rcases (endsSaved_actions F env op).replay applyEdit env.rows with same | point
    · rw [same]
      exact inv.rows
    · exact accepted_savePoint inv brings point
  committed := by
    rw [GlobalEnviroment.committedRows, after_eq_interrupted]
    exact accepted_committed inv brings ok _
  listed document mem := by
    rcases mem_listed_after enabled mem with ⟨old, known, -, same⟩ | ⟨row, new | old, head⟩
    · rw [← same]
      exact inv.listed old known
    · exact (accepted_inserted brings new).of_heads head
    · exact (inv.rows row old).of_heads head

/-- **One event keeps every url accepted**, if what it brings in is. -/
theorem UrlInv.step {env : GlobalEnviroment} {event : Event} (inv : UrlInv urlOfString env)
    (enabled : (app F).enabled env event) (brings : BringsURL urlOfString env event) :
    UrlInv urlOfString ((app F).step env event) := by
  cases event with
  | complete op ok =>
      have permitted : op.Enabled env := enabled
      show UrlInv urlOfString ((op.run F ok env).getD env)
      cases ran : op.run F ok env with
      | none => exact inv
      | some env' =>
          obtain rfl := run_eq_after F permitted ran
          exact inv.after permitted brings ok
  | crash op ok k fetched now =>
      have kept := accepted_committed (F := F) inv brings ok k
      refine ⟨kept, kept, ?_⟩
      intro document mem
      obtain ⟨row, rowMem, head⟩ := mem_listed_onAppear mem
      exact (kept row (enabled.2.documents.mem_iff.mp rowMem)).of_heads head

/-- **Every listed document opens, in every run that only brings in accepted
urls.** -/
theorem listed_documents_open {events : List Event} {env : GlobalEnviroment}
    (run : ((app F).restrict (BringsURL urlOfString)).Run .initial events env) :
    AllOpen urlOfString env := by
  have inv : UrlInv urlOfString env := by
    refine run.invariant_restrict ?_ fun _ _ enabled brings inv => inv.step enabled brings
    refine ⟨?_, ?_, ?_⟩ <;>
      simp [GlobalEnviroment.initial, GlobalEnviroment.listed, WorkingCopy.clean]
  intro document mem
  obtain ⟨text, known, ok⟩ := inv.listed document mem
  simpa [PDFRelay.bodyURL, addOverlayURL, known] using ok

/-- A `URL(string:)` that refuses the empty string only. -/
def nonemptyURL (text : String) : Option String := if text = "" then none else some text

/-- A document is created from an empty field. -/
def emptyUrlState : GlobalEnviroment :=
  (Operation.create "doc1" "Заявление" "" []).after Foundation.numbered (fun _ => true) .initial

theorem empty_url_traps :
    ¬ ∀ events env, (app Foundation.numbered).Run .initial events env →
      AllOpen nonemptyURL env := by
  intro all
  have run : (app Foundation.numbered).Run .initial
      [.complete (.create "doc1" "Заявление" "" []) fun _ => true] emptyUrlState :=
    .cons trivial .nil
  have opens := all _ _ run
    { id := "doc1", name := "Заявление", url := some "",
      cdID := "00000000-0000-4000-8000-000000000000", fieldsToFill := [] } (by decide +kernel)
  exact absurd opens.1 (by decide)

theorem nonempty_url_opens :
    AllOpen nonemptyURL ((Operation.create "doc1" "Заявление" "a.pdf" []).after
      Foundation.numbered (fun _ => true) .initial) := by
  have accepted : (nonemptyURL "a.pdf").isSome = true := by decide
  have run : ((app Foundation.numbered).restrict (BringsURL nonemptyURL)).Run .initial
      [.complete (.create "doc1" "Заявление" "a.pdf" []) fun _ => true] _ :=
    .cons ⟨trivial, accepted⟩ .nil
  exact listed_documents_open run

end DocumentRelay
